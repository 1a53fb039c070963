import Mathlib.Tactic.Ring
import StackedDram.Ramulator.OpenRows
import StackedDram.Ramulator.Requests

/-!
# Requests in service

Every node of a channel counts the reads and writes for it that are in service, from their first
command until their data has arrived or their last command has been issued, and adds up from time to
time how long it has been active. The assertions of `update_serving_requests` never fail, the nodes
count right (`serving_run`), and the sums that they keep, brought up to date, are sums over all
ticks (`activeCycles_run`).
-/

namespace StackedDram.Ramulator

/-! ## Statistics of a node -/

/-- What a node of `RamDRAM` counts about the requests in service, without the cycles under
refresh. -/
structure Serving where
  curServingRequests : ℤ
  beginOfServing : ℤ
  endOfServing : ℤ
  beginOfCurReqcnt : ℤ
  servingRequests : ℤ
  activeCycles : ℤ

namespace Serving

/-- The statistics of a new node. -/
def new : Serving := ⟨0, -1, -1, -1, 0, 0⟩

/-- The first steps of `RamDRAM::update_serving_requests`, which bring the sums up to date. -/
def accumulate (s : Serving) (clk : ℤ) : Serving :=
  if s.beginOfCurReqcnt ≠ -1 ∧ 0 < s.curServingRequests then
    { s with
      servingRequests := s.servingRequests + (clk - s.beginOfCurReqcnt) * s.curServingRequests
      activeCycles := s.activeCycles + (clk - s.beginOfCurReqcnt) }
  else s

/-- `RamDRAM::update_serving_requests` for one node; no statistics where an assertion fails. -/
def update (s : Serving) (delta clk : ℤ) : Option Serving :=
  if delta = 1 ∨ delta = -1 then
    let s := s.accumulate clk
    let s := { s with
      beginOfCurReqcnt := clk
      curServingRequests := s.curServingRequests + delta }
    if s.curServingRequests < 0 then none
    else if delta = 1 ∧ s.curServingRequests = 1 then
      -- from inactive to active
      some { s with beginOfServing := clk }
    else if s.curServingRequests = 0 then
      -- from active to inactive
      if s.beginOfServing ≠ -1 ∧ delta = -1 then
        some { s with
          activeCycles := s.activeCycles + (clk - s.beginOfCurReqcnt)
          endOfServing := clk }
      else none
    else some s
  else none

variable {s : Serving} {k : ℕ} {active total clk : ℤ}

/-- How long the node has been active by now. -/
def activeBy (s : Serving) (clk : ℤ) : ℤ :=
  s.activeCycles + if 0 < s.curServingRequests then clk - s.beginOfCurReqcnt else 0

/-- The sum over time of the numbers of requests in service, by now. -/
def servingBy (s : Serving) (clk : ℤ) : ℤ :=
  s.servingRequests + if 0 < s.curServingRequests then
    (clk - s.beginOfCurReqcnt) * s.curServingRequests else 0

/-- The node counts `k` requests in service, and its sums, brought up to date, are these. -/
structure Counts (s : Serving) (k : ℕ) (active total clk : ℤ) : Prop where
  cur : s.curServingRequests = k
  begun : 0 < k → s.beginOfCurReqcnt ≠ -1 ∧ s.beginOfServing ≠ -1
  active : s.activeBy clk = active
  total : s.servingBy clk = total

theorem counts_new : new.Counts 0 0 0 clk := ⟨rfl, by simp, rfl, rfl⟩

/-- The sums grow with the time. -/
theorem Counts.succ (h : s.Counts k active total clk) :
    s.Counts k (active + if 0 < k then 1 else 0) (total + k) (clk + 1) := by
  have hcur := h.cur
  refine ⟨hcur, h.begun, ?_, ?_⟩
  · rw [← h.active, activeBy, activeBy, hcur]
    by_cases hk : 0 < k
    · simp only [Int.natCast_pos, hk, if_true]
      ring
    · simp [hk]
  · rw [← h.total, servingBy, servingBy, hcur]
    by_cases hk : 0 < k
    · simp only [Int.natCast_pos, hk, if_true]
      ring
    · obtain rfl : k = 0 := by omega
      simp

/-- The sums are brought up to date. -/
theorem Counts.accumulate (h : s.Counts k active total clk) :
    (s.accumulate clk).curServingRequests = k ∧ (s.accumulate clk).activeCycles = active ∧
      (s.accumulate clk).servingRequests = total ∧
      (s.accumulate clk).beginOfServing = s.beginOfServing := by
  have hcur := h.cur
  have hactive := h.active
  have htotal := h.total
  rw [activeBy, hcur] at hactive
  rw [servingBy, hcur] at htotal
  rw [Serving.accumulate, hcur]
  by_cases hk : 0 < k
  · rw [if_pos (Int.natCast_pos.mpr hk)] at hactive htotal
    rw [if_pos ⟨(h.begun hk).1, Int.natCast_pos.mpr hk⟩]
    exact ⟨rfl, hactive, htotal, rfl⟩
  · have hpos : ¬ (0 : ℤ) < k := fun h => hk (Int.natCast_pos.mp h)
    rw [if_neg hpos, add_zero] at hactive htotal
    rw [if_neg fun h => hpos h.2]
    exact ⟨hcur, hactive, htotal, rfl⟩

/-- A request comes into service. -/
theorem Counts.update_one (h : s.Counts k active total clk) (hclk : clk ≠ -1) :
    ∃ s', s.update 1 clk = some s' ∧ s'.Counts (k + 1) active total clk := by
  obtain ⟨hcur, hactive, htotal, hbegin⟩ := h.accumulate
  have hnonneg : ¬ (s.accumulate clk).curServingRequests + 1 < 0 := by rw [hcur]; omega
  rw [update, if_pos (Or.inl rfl)]
  dsimp only
  rw [if_neg hnonneg, hcur]
  by_cases hk : k = 0
  · subst hk
    rw [if_pos ⟨rfl, rfl⟩]
    refine ⟨_, rfl, rfl, fun _ => ⟨hclk, hclk⟩, ?_, ?_⟩
    · simp [activeBy, hactive]
    · simp [servingBy, htotal]
  · rw [if_neg fun h => hk (by omega), if_neg (by omega)]
    refine ⟨_, rfl, rfl, fun _ => ⟨hclk, ?_⟩, ?_, ?_⟩
    · exact hbegin ▸ (h.begun (by omega)).2
    · simp [activeBy, hactive]
    · simp [servingBy, htotal]

/-- A request goes out of service. -/
theorem Counts.update_neg_one (h : s.Counts (k + 1) active total clk) (hclk : clk ≠ -1) :
    ∃ s', s.update (-1) clk = some s' ∧ s'.Counts k active total clk := by
  obtain ⟨hcur, hactive, htotal, hbegin⟩ := h.accumulate
  have hbegun := (h.begun (by omega)).2
  have hcur' : (s.accumulate clk).curServingRequests + -1 = k := by rw [hcur]; omega
  rw [update, if_pos (Or.inr rfl)]
  dsimp only
  rw [hcur', if_neg (by omega), if_neg fun h => absurd h.1 (by decide)]
  by_cases hk : k = 0
  · subst hk
    rw [if_pos (by rfl), hbegin, if_pos ⟨hbegun, rfl⟩]
    refine ⟨_, rfl, rfl, fun h => absurd h (by omega), ?_, ?_⟩
    · simp [activeBy, hactive]
    · simp [servingBy, htotal]
  · rw [if_neg (by omega)]
    refine ⟨_, rfl, rfl, fun _ => ⟨hclk, ?_⟩, ?_, ?_⟩
    · exact hbegin ▸ hbegun
    · simp [activeBy, hactive]
    · simp [servingBy, htotal]

end Serving

/-! ## The nodes of a channel -/

/-- Updates the statistics of a node. -/
def updateNode (s : Node → Serving) (node : Node) (delta clk : ℤ) : Option (Node → Serving) :=
  ((s node).update delta clk).map (Function.update s node)

/-- `RamDRAM::update_serving_requests`; no statistics where an assertion fails or where the code
reads past the vector of the children. -/
def updateServingRequests (hbm : HBM) (channelId : ℕ) (s : Node → Serving) (addr : Level → ℤ)
    (delta clk : ℤ) : Option (Node → Serving) :=
  if addr .channel ≠ channelId then none
  else (updateNode s .channel delta clk).bind fun s =>
    if addr .rank < 0 ∨ hbm.count .rank = 0 then some s
    else if hbm.count .rank ≤ (addr .rank).toNat then none
    else (updateNode s (.rank (addr .rank).toNat) delta clk).bind fun s =>
      if addr .bank < 0 ∨ hbm.count .bank = 0 then some s
      else if hbm.count .bank ≤ (addr .bank).toNat then none
      else updateNode s (.bank (addr .rank).toNat (addr .bank).toNat) delta clk

/-- A request that comes into service, or goes out of it. -/
structure ServingEvent where
  addr : Level → ℤ
  delta : ℤ
  clk : ℤ

/-- The statistics of the nodes after these changes; none if an assertion has failed. -/
def servingAfter (hbm : HBM) (channelId : ℕ) (s : Node → Serving) (h : List ServingEvent) :
    Option (Node → Serving) :=
  h.foldlM (fun s e => updateServingRequests hbm channelId s e.addr e.delta e.clk) s

/-- All nodes count the requests for them. -/
def NodesCount (s : Node → Serving) (k : Node → ℕ) (active total : Node → ℤ) (clk : ℤ) : Prop :=
  ∀ node, (s node).Counts (k node) (active node) (total node) clk

section Nodes

variable {hbm : HBM} {channelId : ℕ} {s : Node → Serving} {k k' : Node → ℕ}
  {active total : Node → ℤ} {addr : Level → ℤ} {delta clk : ℤ}

/-- The numbers of requests in service at the nodes, when one more request for the address is. -/
def countIn (channelId : ℕ) (addr : Level → ℤ) (node : Node) : ℕ :=
  if node.On channelId addr then 1 else 0

/-- If the change is possible at each node of an address, it is made at these nodes. -/
theorem updateServingRequests_eq {content : RamRequest.Content}
    (hin : InBank hbm channelId content) {s' : Node → Serving}
    (hon : ∀ node, node.On channelId content.addrVec → (s node).update delta clk = some (s' node))
    (hoff : ∀ node, ¬ node.On channelId content.addrVec → s' node = s node) :
    updateServingRequests hbm channelId s content.addrVec delta clk = some s' := by
  obtain ⟨r, b, ⟨hr, hb⟩, hchannel, hrank, hbank⟩ := hin
  have honChannel := hon .channel ⟨hchannel, trivial⟩
  have honRank := hon (.rank r) ⟨hchannel, hrank⟩
  have honBank := hon (.bank r b) ⟨hchannel, hrank, hbank⟩
  have hnode (node : Node) : node.On channelId content.addrVec ↔
      node = .channel ∨ node = .rank r ∨ node = .bank r b := by
    cases node with
    | channel => simp [Node.On, hchannel]
    | rank r' => simp [Node.On, hchannel, hrank, eq_comm]
    | bank r' b' => simp [Node.On, hchannel, hrank, hbank, eq_comm]
  have hgoRank : ¬ ((r : ℤ) < 0 ∨ hbm.count .rank = 0) := by omega
  have hgoBank : ¬ ((b : ℤ) < 0 ∨ hbm.count .bank = 0) := by omega
  rw [updateServingRequests, if_neg (not_not.mpr hchannel), hrank, hbank, Int.toNat_natCast,
    Int.toNat_natCast]
  simp only [updateNode, honChannel, Option.map_some, Option.bind_some, if_neg hgoRank,
    if_neg hgoBank, if_neg (Nat.not_le.mpr hr), if_neg (Nat.not_le.mpr hb),
    Function.update_of_ne, ne_eq, reduceCtorEq, not_false_eq_true, honRank, honBank]
  congr 1
  funext node
  by_cases hnode' : node.On channelId content.addrVec
  · rcases (hnode node).mp hnode' with rfl | rfl | rfl <;> simp
  · rw [hnode, not_or, not_or] at hnode'
    rw [Function.update_of_ne hnode'.2.2, Function.update_of_ne hnode'.2.1,
      Function.update_of_ne hnode'.1]
    exact (hoff node (by rw [hnode]; simp [hnode'])).symm

/-- A request comes into service at all nodes that it is for. -/
theorem NodesCount.update_one (h : NodesCount s k active total clk) (hclk : clk ≠ -1)
    {content : RamRequest.Content} (hin : InBank hbm channelId content) :
    ∃ s', updateServingRequests hbm channelId s content.addrVec 1 clk = some s' ∧
      NodesCount s' (fun node => k node + countIn channelId content.addrVec node) active total
        clk := by
  choose f hf hcounts using fun node => (h node).update_one hclk
  refine ⟨fun node => if node.On channelId content.addrVec then f node else s node,
    updateServingRequests_eq hin ?_ ?_, ?_⟩
  · intro node hon
    rw [if_pos hon]
    exact hf node
  · intro node hoff
    rw [if_neg hoff]
  · intro node
    by_cases hon : node.On channelId content.addrVec
    · simpa [countIn, hon] using hcounts node
    · simpa [countIn, hon] using h node

/-- A request goes out of service at all nodes that it is for. -/
theorem NodesCount.update_neg_one {content : RamRequest.Content}
    (h : NodesCount s (fun node => k node + countIn channelId content.addrVec node) active total
      clk) (hclk : clk ≠ -1) (hin : InBank hbm channelId content) :
    ∃ s', updateServingRequests hbm channelId s content.addrVec (-1) clk = some s' ∧
      NodesCount s' k active total clk := by
  have hupdate (node : Node) : ∃ s', (node.On channelId content.addrVec →
      (s node).update (-1) clk = some s') ∧
        (¬ node.On channelId content.addrVec → s' = s node) ∧
          s'.Counts (k node) (active node) (total node) clk := by
    have hnode := h node
    dsimp only at hnode
    rw [countIn] at hnode
    by_cases hon : node.On channelId content.addrVec
    · rw [if_pos hon] at hnode
      obtain ⟨s', hs', hcounts⟩ := hnode.update_neg_one hclk
      exact ⟨s', fun _ => hs', fun hoff => absurd hon hoff, hcounts⟩
    · rw [if_neg hon, Nat.add_zero] at hnode
      exact ⟨s node, fun h => absurd h hon, fun _ => rfl, hnode⟩
  choose s' hon hoff hcounts using hupdate
  exact ⟨s', updateServingRequests_eq hin hon hoff, hcounts⟩

end Nodes

namespace ChannelController

variable (hbm : HBM) (channelId : ℕ)

/-! ## Requests in service -/

/-- The request for the node has its first command behind it. -/
def begunOn (node : Node) (req : RamRequest) : Bool :=
  !req.isFirstCommand && decide (node.On channelId req.addrVec)

/-- The read for the node really accessed a row. -/
def accessedOn (node : Node) (req : RamRequest) : Bool :=
  decide (1 < req.depart - req.arrive ∧ node.On channelId req.addrVec)

/-- How many requests for the node are in service. -/
def inService (c : ChannelController) (node : Node) : ℕ :=
  c.readq.countP (begunOn channelId node) + c.writeq.countP (begunOn channelId node) +
    c.pending.countP (accessedOn channelId node)

/-- The read that completes goes out of service, if it really accessed a row. -/
def completedServing (c : ChannelController) : List ServingEvent :=
  (c.completed.filter fun req => 1 < req.depart - req.arrive).toList.map
    fun req => ⟨req.addrVec, -1, c.clk + 1⟩

/-- The scheduled request comes into service with its first command, and a write goes out of service
with its last. -/
def scheduledServing (c : ChannelController) : List ServingEvent :=
  match (c.prepare hbm channelId).scheduled with
  | none => []
  | some (req, _) =>
    (if req.isFirstCommand ∧ (req.type = .read ∨ req.type = .write) then
        [⟨req.addrVec, 1, c.clk + 1⟩]
      else []) ++
      if (c.prepare hbm channelId).firstCmd req = some (translate req.type) ∧ req.type = .write then
        [⟨req.addrVec, -1, c.clk + 1⟩]
      else []

/-- The calls of `update_serving_requests` in an action. -/
def servingOf (c : ChannelController) : Action → List ServingEvent
  | .enqueue _ | .setBankRef _ _ => []
  | .tick => c.completedServing ++ c.scheduledServing hbm channelId

/-- The calls of `update_serving_requests` in a run. -/
def servingCalls (as : List Action) : List ServingEvent :=
  (machine hbm channelId).outputs (servingOf hbm channelId) as

variable {hbm channelId} {c : ChannelController} {req : RamRequest} {node : Node}

variable (channelId node) in
theorem countP_begunOn_set {q : List RamRequest} {i : ℕ} (hget : q[i]? = some req) :
    (q.set i req.begun).countP (begunOn channelId node) =
      q.countP (begunOn channelId node) +
        if req.isFirstCommand then countIn channelId req.addrVec node else 0 := by
  obtain ⟨hlt, rfl⟩ := List.getElem?_eq_some_iff.mp hget
  have hperm := (List.getElem_cons_eraseIdx_perm hlt).countP_eq (begunOn channelId node)
  have hset := (List.set_perm_cons_eraseIdx hlt (q[i]).begun).countP_eq (begunOn channelId node)
  rw [hset, ← hperm, List.countP_cons, List.countP_cons]
  cases hfirst : (q[i]).isFirstCommand <;>
    by_cases hon : node.On channelId (q[i]).addrVec <;>
      simp [begunOn, RamRequest.begun, hfirst, countIn, hon]

variable (channelId node) in
theorem countP_begunOn_eraseIdx {q : List RamRequest} {i : ℕ} (hget : q[i]? = some req) :
    (q.eraseIdx i).countP (begunOn channelId node) +
        (if req.isFirstCommand then 0 else countIn channelId req.addrVec node) =
      q.countP (begunOn channelId node) := by
  obtain ⟨hlt, rfl⟩ := List.getElem?_eq_some_iff.mp hget
  have hperm := (List.getElem_cons_eraseIdx_perm hlt).countP_eq (begunOn channelId node)
  rw [← hperm, List.countP_cons]
  cases hfirst : (q[i]).isFirstCommand <;>
    by_cases hon : node.On channelId (q[i]).addrVec <;> simp [begunOn, hfirst, countIn, hon]

/-- The calls for the scheduled request, by what its first command is. -/
theorem scheduledServing_eq {i : ℕ} {cmd : Command}
    (hscheduled : (c.prepare hbm channelId).scheduled = some (req, i))
    (hfirst : (c.prepare hbm channelId).firstCmd req = some cmd) :
    c.scheduledServing hbm channelId =
      (if req.isFirstCommand ∧ (req.type = .read ∨ req.type = .write) then
          [⟨req.addrVec, 1, c.clk + 1⟩]
        else []) ++
        if cmd = translate req.type ∧ req.type = .write then [⟨req.addrVec, -1, c.clk + 1⟩]
        else [] := by
  rw [scheduledServing, hscheduled]
  dsimp only
  rw [hfirst]
  simp only [Option.some.injEq]

variable (channelId node) in
/-- A read that is served has accessed a row. -/
theorem accessedOn_served {clk : ℤ} (hlat : 1 < hbm.speed.readLatency)
    (harrive : req.arrive ≤ clk) :
    [{ req.begun with depart := clk + hbm.speed.readLatency }].countP (accessedOn channelId node) =
      countIn channelId req.addrVec node := by
  have hlate : 1 < clk + hbm.speed.readLatency - req.arrive := by omega
  by_cases hon : node.On channelId req.addrVec <;>
    simp [accessedOn, RamRequest.begun, hlate, hon, countIn]

variable (node) in
/-- How the numbers of requests in service change with the scheduled request. -/
theorem inService_tick {i : ℕ} {cmd : Command} (hq : c.QueuesHold fun _ => True)
    (hin : c.QueuesInOrder) (hlat : 1 < hbm.speed.readLatency)
    (hscheduled : (c.prepare hbm channelId).scheduled = some (req, i))
    (hfirst : (c.prepare hbm channelId).firstCmd req = some cmd) :
    inService channelId (c.tick hbm channelId) node +
        (if cmd = translate req.type ∧ req.type = .write then countIn channelId req.addrVec node
          else 0) =
      inService channelId (c.prepare hbm channelId) node +
        if req.isFirstCommand ∧ (req.type = .read ∨ req.type = .write) then
          countIn channelId req.addrVec node
        else 0 := by
  obtain ⟨hget, hcases, htick⟩ := tick_of_scheduled hq hscheduled hfirst
  have hinp : (c.prepare hbm channelId).QueuesInOrder := hin.prepare
  have harrive := (hinp.getQueue _).arrived req (List.mem_of_getElem? hget)
  have hset := countP_begunOn_set channelId node hget
  have herase := countP_begunOn_eraseIdx channelId node hget
  have haccessed := accessedOn_served channelId node hlat harrive
  set p := c.prepare hbm channelId
  set c' := c.tick hbm channelId
  have hpending : c'.pending = pendingAfter hbm p req cmd := by rw [htick, pending_setQueue]
  rw [pendingAfter] at hpending
  rw [inService, inService]
  rcases hcases with htype | htype | htype
  · have hread : c'.readq = if cmd ≠ translate req.type then p.readq.set i req.begun
        else p.readq.eraseIdx i := by
      rw [htick, htype]
      rfl
    have hwrite : c'.writeq = p.writeq := by
      rw [htick, htype]
      rfl
    rw [htype, RamController.getQueue] at hset herase
    have hnot : ¬ (cmd = translate req.type ∧ req.type = .write) := by simp [htype]
    rw [hwrite, if_neg hnot]
    by_cases hlast : cmd = translate req.type
    · -- the read leaves its queue, and waits for its data
      rw [if_neg (not_not.mpr hlast)] at hread
      rw [if_pos ⟨hlast, htype⟩] at hpending
      rw [hread, hpending, List.countP_append]
      have hnew : [{ req with
          isFirstCommand := false
          depart := p.clk + hbm.speed.readLatency }].countP (accessedOn channelId node) =
          countIn channelId req.addrVec node := haccessed
      rw [hnew]
      cases hf : req.isFirstCommand <;> simp [hf, htype] at herase ⊢ <;> omega
    · rw [if_pos hlast] at hread
      rw [if_neg fun h => hlast h.1] at hpending
      rw [hread, hpending]
      cases hf : req.isFirstCommand <;> simp [hf, htype] at hset ⊢ <;> omega
  · have hread : c'.readq = p.readq := by
      rw [htick, htype]
      rfl
    have hwrite : c'.writeq = if cmd ≠ translate req.type then p.writeq.set i req.begun
        else p.writeq.eraseIdx i := by
      rw [htick, htype]
      rfl
    rw [htype, RamController.getQueue] at hset herase
    have hnot : ¬ (cmd = translate req.type ∧ req.type = .read) := by simp [htype]
    rw [if_neg hnot] at hpending
    rw [hread, hpending]
    by_cases hlast : cmd = translate req.type
    · -- the write leaves its queue
      rw [if_neg (not_not.mpr hlast)] at hwrite
      rw [hwrite, if_pos ⟨hlast, htype⟩]
      cases hf : req.isFirstCommand <;> simp [hf, htype] at herase ⊢ <;> omega
    · rw [if_pos hlast] at hwrite
      rw [hwrite, if_neg fun h => hlast h.1]
      cases hf : req.isFirstCommand <;> simp [hf, htype] at hset ⊢ <;> omega
  · have hread : c'.readq = p.readq := by
      rw [htick, htype]
      rfl
    have hwrite : c'.writeq = p.writeq := by
      rw [htick, htype]
      rfl
    rw [hread, hwrite, hpending]
    simp [htype]

variable (hbm channelId) in
/-- How the numbers of requests in service change with the read that completes. -/
theorem inService_prepare (c : ChannelController) (node : Node) :
    inService channelId c node = inService channelId (c.prepare hbm channelId) node +
      c.completed.toList.countP (accessedOn channelId node) := by
  obtain ⟨hread, hwrite, hpending⟩ := prepare_queues hbm channelId c
  rw [inService, inService, hread, hwrite, hpending, List.countP_append]
  omega

end ChannelController

theorem servingAfter_append (hbm : HBM) (channelId : ℕ) (s : Node → Serving)
    (h h' : List ServingEvent) : servingAfter hbm channelId s (h ++ h') =
      (servingAfter hbm channelId s h).bind fun s => servingAfter hbm channelId s h' := by
  rw [servingAfter, List.foldlM_append]
  rfl

theorem servingAfter_singleton (hbm : HBM) (channelId : ℕ) (s : Node → Serving)
    (e : ServingEvent) : servingAfter hbm channelId s [e] =
      updateServingRequests hbm channelId s e.addr e.delta e.clk := by
  simp [servingAfter]

namespace ChannelController

variable {hbm : HBM} {channelId : ℕ} {c : ChannelController} {req : RamRequest} {node : Node}
  {s : Node → Serving} {active total : Node → ℤ}

/-- No assertion fails for the read that completes. -/
theorem nodesCount_completed {clk : ℤ} (hq : c.QueuesHold (InBank hbm channelId))
    (hclk : clk = c.clk + 1) (hnonneg : 0 ≤ c.clk)
    (h : NodesCount s (inService channelId c) active total clk) :
    ∃ s', servingAfter hbm channelId s c.completedServing = some s' ∧
      NodesCount s' (inService channelId (c.prepare hbm channelId)) active total clk := by
  have hsame := inService_prepare hbm channelId c
  rw [completedServing]
  cases hcompleted : c.completed with
  | none =>
    refine ⟨s, rfl, fun node => ?_⟩
    have hnode := hsame node
    rw [hcompleted, Option.toList_none, List.countP_nil, Nat.add_zero] at hnode
    exact hnode ▸ h node
  | some req =>
    have hbank : InBank hbm channelId req.content := by
      refine (hq.pending req ?_).2
      rw [pending_eq c, hcompleted]
      exact List.mem_cons_self
    by_cases haccessed : 1 < req.depart - req.arrive
    · have hcount : NodesCount s (fun node => inService channelId (c.prepare hbm channelId) node +
          countIn channelId req.content.addrVec node) active total clk := by
        intro node
        have hnode := hsame node
        rw [hcompleted] at hnode
        have hone : (some req).toList.countP (accessedOn channelId node) =
            countIn channelId req.content.addrVec node := by
          by_cases hon : node.On channelId req.addrVec <;>
            simp [accessedOn, haccessed, countIn, RamRequest.content, hon]
        have hs := h node
        rwa [hnode, hone] at hs
      obtain ⟨s', hs', hcounts⟩ := hcount.update_neg_one (by omega) hbank
      refine ⟨s', ?_, hcounts⟩
      have hfilter : (some req).filter (fun req => 1 < req.depart - req.arrive) = some req :=
        Option.filter_eq_some_iff.mpr ⟨rfl, decide_eq_true haccessed⟩
      rw [hfilter, Option.toList_some, List.map_singleton, servingAfter_singleton, ← hclk]
      exact hs'
    · have hfilter : (some req).filter (fun req => 1 < req.depart - req.arrive) = none := by
        simp [Option.filter, haccessed]
      rw [hfilter]
      refine ⟨s, rfl, fun node => ?_⟩
      have hnode := hsame node
      rw [hcompleted] at hnode
      have hzero : (some req).toList.countP (accessedOn channelId node) = 0 := by
        simp [accessedOn, haccessed]
      rw [hzero, Nat.add_zero] at hnode
      exact hnode ▸ h node

/-- No assertion fails for the scheduled request. -/
theorem nodesCount_scheduled {clk : ℤ} (hq : c.QueuesHold (InBank hbm channelId))
    (hin : c.QueuesInOrder) (hlat : 1 < hbm.speed.readLatency) (hclk : clk = c.clk + 1)
    (hnonneg : 0 ≤ c.clk)
    (h : NodesCount s (inService channelId (c.prepare hbm channelId)) active total clk) :
    ∃ s', servingAfter hbm channelId s (c.scheduledServing hbm channelId) = some s' ∧
      NodesCount s' (inService channelId (c.tick hbm channelId)) active total clk := by
  cases hscheduled : (c.prepare hbm channelId).scheduled with
  | none =>
    rw [scheduledServing, hscheduled]
    have htick : c.tick hbm channelId = c.prepare hbm channelId := by rw [tick, hscheduled]
    exact ⟨s, rfl, htick ▸ h⟩
  | some head =>
    obtain ⟨req, i⟩ := head
    have hq' : c.QueuesHold fun _ => True := hq.mono fun _ _ => trivial
    obtain ⟨hhead, cmd, hfirst, -⟩ := scheduled_eq_some hscheduled
    have hprepare := hq.prepare (holdsOfRefreshes_inBank hbm channelId)
    have hbank : InBank hbm channelId req.content :=
      (hprepare.getQueue _ req (List.mem_of_getElem? (getElem?_of_getHead hhead))).2
    have hne : clk ≠ -1 := by omega
    have hcount (node : Node) := inService_tick node hq' hin hlat hscheduled hfirst
    rw [scheduledServing_eq hscheduled hfirst, ← hclk, servingAfter_append]
    -- the request comes into service with its first command
    have hbegin : ∃ s', servingAfter hbm channelId s
          (if req.isFirstCommand ∧ (req.type = .read ∨ req.type = .write) then
            [⟨req.addrVec, 1, clk⟩]
          else []) = some s' ∧
        NodesCount s' (fun node => inService channelId (c.prepare hbm channelId) node +
          if req.isFirstCommand ∧ (req.type = .read ∨ req.type = .write) then
            countIn channelId req.addrVec node
          else 0) active total clk := by
      split
      · rw [servingAfter_singleton]
        exact h.update_one hne hbank
      · exact ⟨s, rfl, h⟩
    obtain ⟨s', hs', hcounts⟩ := hbegin
    rw [hs', Option.bind_some]
    simp only [← hcount] at hcounts
    -- and a write goes out of service with its last
    split
    · rename_i hlast
      rw [servingAfter_singleton]
      simp only [if_pos hlast] at hcounts
      exact NodesCount.update_neg_one hcounts hne hbank
    · rename_i hlast
      simp only [if_neg hlast, Nat.add_zero] at hcounts
      exact ⟨s', rfl, hcounts⟩

/-! ## Runs -/

/-- A request that comes in has not been started. -/
def Action.Fresh : Action → Prop
  | .enqueue req => req.isFirstCommand = true
  | .setBankRef _ _ | .tick => True

/-- A request that comes in is not in service. -/
theorem inService_enqueue (hfresh : req.isFirstCommand = true) (node : Node) :
    inService channelId (c.enqueue req) node = inService channelId c node := by
  rcases enqueue_cases c req with ⟨-, heq⟩ | ⟨-, -, heq⟩ | ⟨-, -, heq⟩
  · rw [heq]
  · rw [heq, inService, inService]
    simp [accessedOn]
  · rw [heq, inService, inService]
    cases req.type <;> simp [setQueue, begunOn, hfresh, RamController.getQueue]

variable (hbm channelId)

/-- The ticks that begin with a request for the node in service. -/
def activeTicks (node : Node) (as : List Action) : ℕ :=
  (machine hbm channelId).tally (fun c a =>
    match a with
    | .tick => if 0 < inService channelId c node then 1 else 0
    | .enqueue _ | .setBankRef _ _ => 0) as

/-- The requests for the node that are in service, added up over the ticks. -/
def servingTicks (node : Node) (as : List Action) : ℕ :=
  (machine hbm channelId).tally (fun c a =>
    match a with
    | .tick => inService channelId c node
    | .enqueue _ | .setBankRef _ _ => 0) as

variable {hbm channelId}

/-- What holds of the statistics in every run. -/
structure ServingCounts (hbm : HBM) (channelId : ℕ) (as : List Action) : Prop where
  queues : ((machine hbm channelId).run as).QueuesHold (InBank hbm channelId)
  inOrder : ((machine hbm channelId).run as).QueuesInOrder
  clk : 0 ≤ ((machine hbm channelId).run as).clk
  counts : ∃ s,
    servingAfter hbm channelId (fun _ => .new) (servingCalls hbm channelId as) = some s ∧
    NodesCount s (inService channelId ((machine hbm channelId).run as))
      (fun node => activeTicks hbm channelId node as)
      (fun node => servingTicks hbm channelId node as) ((machine hbm channelId).run as).clk

theorem servingCounts_run (hlat : 1 < hbm.speed.readLatency) (as : List Action)
    (has : ∀ a ∈ as, a.Sends (InBank hbm channelId) ∧ a.Fresh) :
    ServingCounts hbm channelId as := by
  induction as using List.reverseRecOn with
  | nil =>
    exact ⟨queuesHold_new, ⟨inOrder_nil, inOrder_nil, inOrder_nil⟩, le_rfl, _, rfl,
      fun _ => Serving.counts_new⟩
  | append_singleton as a ih =>
    obtain ⟨hq, hin, hclk, s, hs, hcounts⟩ := ih fun b hb => has b (by simp [hb])
    obtain ⟨ha, hfresh⟩ := has a (by simp)
    have hcalls : servingCalls hbm channelId (as ++ [a]) = servingCalls hbm channelId as ++
        servingOf hbm channelId ((machine hbm channelId).run as) a := Machine.outputs_concat as a
    have hinit := hq.step (holdsOfRefreshes_inBank hbm channelId) ha
    constructor
    · rw [Machine.run_concat]
      exact hinit
    · rw [Machine.run_concat]
      exact hin.step a
    · rw [Machine.run_concat]
      cases a with
      | enqueue req =>
        show 0 ≤ (ChannelController.enqueue _ req).clk
        rwa [(sameNodes_enqueue _ req).clk]
      | setBankRef bank hot => exact hclk
      | tick =>
        show 0 ≤ (ChannelController.tick hbm channelId _).clk
        rw [clk_tick]
        omega
    · rw [hcalls, servingAfter_append, hs, Option.bind_some, Machine.run_concat]
      simp only [activeTicks, servingTicks, Machine.tally_concat]
      cases a with
      | enqueue req =>
        refine ⟨s, rfl, fun node => ?_⟩
        show (s node).Counts (inService channelId (ChannelController.enqueue _ req) node) _ _
          (ChannelController.enqueue _ req).clk
        rw [inService_enqueue hfresh, (sameNodes_enqueue _ req).clk]
        exact hcounts node
      | setBankRef bank hot => exact ⟨s, rfl, hcounts⟩
      | tick =>
        have hlater := fun node => (hcounts node).succ
        obtain ⟨s₁, hs₁, hcounts₁⟩ := nodesCount_completed hq rfl hclk hlater
        obtain ⟨s₂, hs₂, hcounts₂⟩ := nodesCount_scheduled hq hin hlat rfl hclk hcounts₁
        refine ⟨s₂, ?_, fun node => ?_⟩
        · rw [servingOf, servingAfter_append, hs₁]
          exact hs₂
        · have hnode := hcounts₂ node
          show (s₂ node).Counts (inService channelId (ChannelController.tick hbm channelId _) node)
            _ _ (ChannelController.tick hbm channelId _).clk
          rw [clk_tick]
          push_cast
          exact hnode

/-- In every run in which the memory sends fresh reads and writes for banks of the channel, no
assertion of `update_serving_requests` fails, and every node counts the requests for it that are in
service. -/
theorem serving_run (hlat : 1 < hbm.speed.readLatency) (as : List Action)
    (has : ∀ a ∈ as, a.Sends (InBank hbm channelId) ∧ a.Fresh) :
    ∃ s, servingAfter hbm channelId (fun _ => .new) (servingCalls hbm channelId as) = some s ∧
      ∀ node, (s node).curServingRequests =
        inService channelId ((machine hbm channelId).run as) node := by
  obtain ⟨-, -, -, s, hs, hcounts⟩ := servingCounts_run hlat as has
  exact ⟨s, hs, fun node => (hcounts node).cur⟩

theorem sends_fresh_readFirstBank (row : ℤ) (ticks : ℕ) :
    ∀ a ∈ readFirstBank row ticks, a.Sends (InBank oneRank 0) ∧ a.Fresh := by
  intro a ha
  refine ⟨sends_readFirstBank row ticks a ha, ?_⟩
  rcases List.mem_cons.mp ha with rfl | ha
  · rfl
  · obtain rfl := List.eq_of_mem_replicate ha
    trivial

/-- The requests in service while a row is opened and read. -/
theorem serving_run_read :
    let as := readFirstBank 5 40
    ∃ s, servingAfter oneRank 0 (fun _ => .new) (servingCalls oneRank 0 as) = some s ∧
      ∀ node, (s node).curServingRequests = inService 0 ((machine oneRank 0).run as) node :=
  serving_run (by decide) _ (sends_fresh_readFirstBank 5 40)

/-- In every run in which the memory sends fresh reads and writes for banks of the channel, the sums
that a node keeps from change to change are sums over all ticks: its active cycles, with those since
the last change, are the ticks that begin with a request for it in service, and the sum of the
requests is the sum of their numbers over these ticks. -/
theorem activeCycles_run (hlat : 1 < hbm.speed.readLatency) (as : List Action)
    (has : ∀ a ∈ as, a.Sends (InBank hbm channelId) ∧ a.Fresh) :
    ∃ s, servingAfter hbm channelId (fun _ => .new) (servingCalls hbm channelId as) = some s ∧
      ∀ node, (s node).activeBy ((machine hbm channelId).run as).clk =
          activeTicks hbm channelId node as ∧
        (s node).servingBy ((machine hbm channelId).run as).clk =
          servingTicks hbm channelId node as := by
  obtain ⟨-, -, -, s, hs, hcounts⟩ := servingCounts_run hlat as has
  exact ⟨s, hs, fun node => ⟨(hcounts node).active, (hcounts node).total⟩⟩

/-- The sums while a row is opened and read. -/
theorem activeCycles_run_read :
    let as := readFirstBank 5 8
    ∃ s, servingAfter oneRank 0 (fun _ => .new) (servingCalls oneRank 0 as) = some s ∧
      ∀ node, (s node).activeBy ((machine oneRank 0).run as).clk = activeTicks oneRank 0 node as ∧
        (s node).servingBy ((machine oneRank 0).run as).clk = servingTicks oneRank 0 node as :=
  activeCycles_run (by decide) _ (sends_fresh_readFirstBank 5 8)

end ChannelController

end StackedDram.Ramulator
