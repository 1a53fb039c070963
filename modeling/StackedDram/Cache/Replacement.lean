import StackedDram.Library.Recency
import StackedDram.Cache.CacheSet

/-!
# Replacement in a cache set

`serveAll` performs a sequence of requests on one set, as `ProcessRequest` does. A set with
least-recently-used replacement would end up with the most recently requested pages, would fill
its invalid ways first and would evict the oldest page (`TrueLru`).

The ages decide about the victim, but `updateUsedInfo` changes them only when the page just
installed has a positive age, and all ages start at zero. So they stay zero, way 0 is always the
victim (`OnlyWayZero.serveAll`), and the set works as one with a single way. `trueLru_iff` says for
which requests this makes no difference.
-/

namespace StackedDram

namespace DramCacheSetUnison

variable {A : ℕ} [NeZero A] {P : Platform} {S : DramCacheSetUnison A} {t : ℕ}

/-- The set after a sequence of requests. -/
def serveAll (P : Platform) (S : DramCacheSetUnison A) (reqs : List PageRequest) :
    DramCacheSetUnison A :=
  reqs.foldl (serve P) S

/-- Some way holds the valid page with tag `t`. -/
def Resident (S : DramCacheSetUnison A) (t : ℕ) : Prop := t ≠ invalidTag ∧ S.Holds t

/-- After `reqs` the set is as least-recently-used replacement leaves it, and it has been so at
every miss. -/
structure TrueLru (P : Platform) (S : DramCacheSetUnison A) (reqs : List PageRequest) : Prop where
  /-- The pages held are the `A` most recently requested ones. -/
  resident : ∀ t, (S.serveAll P reqs).Resident t ↔
    t ∈ (reqs.map PageRequest.tag).recent.take A
  /-- A valid page is evicted only when all ways are valid. -/
  fills : ∀ before r after, reqs = before ++ r :: after → ¬ (S.serveAll P before).Holds r.tag →
    ((S.serveAll P before).ways (S.serveAll P before).victim).IsValid →
      ∀ i, ((S.serveAll P before).ways i).IsValid
  /-- The page evicted is the one whose last request is the oldest. -/
  evicts : ∀ before r after, reqs = before ++ r :: after → ¬ (S.serveAll P before).Holds r.tag →
    ((S.serveAll P before).ways (S.serveAll P before).victim).IsValid →
      ∀ t, (S.serveAll P before).Resident t →
        t ≠ ((S.serveAll P before).ways (S.serveAll P before).victim).tag →
          (before.map PageRequest.tag).LastBefore
            ((S.serveAll P before).ways (S.serveAll P before).victim).tag t

/-- All ages are zero, and only way 0 has been used; it has tag `t`. -/
structure OnlyWayZero (S : DramCacheSetUnison A) (t : ℕ) : Prop where
  used : ∀ i, (S.ways i).used = 0
  tag_zero : (S.ways 0).tag = t
  tag_of_ne : ∀ i ≠ 0, (S.ways i).tag = invalidTag

/-- Only way 0 can hold a page. -/
theorem OnlyWayZero.holds_iff (h : S.OnlyWayZero t) {tag : ℕ} (htag : tag ≠ invalidTag) :
    S.Holds tag ↔ t = tag := by
  constructor
  · rintro ⟨i, hi⟩
    by_cases h0 : i = 0
    · rw [← h.tag_zero, ← h0, hi]
    · exact absurd (hi.symm.trans (h.tag_of_ne i h0)) htag
  · exact fun heq => ⟨0, h.tag_zero.trans heq⟩

theorem OnlyWayZero.victim_eq (h : S.OnlyWayZero t) : S.victim = 0 := victim_eq_zero h.used

/-- A request leaves its page in way 0 and the other ways unused. -/
theorem OnlyWayZero.serve (h : S.OnlyWayZero t) (r : PageRequest) :
    (S.serve P r).OnlyWayZero r.tag := by
  by_cases hholds : S.Holds r.tag
  · rw [serve_of_holds hholds]
    refine ⟨fun i => ?_, ?_, fun i hi => ?_⟩
    · rw [accessAttempt_used, h.used]
    · rw [accessAttempt_tag, h.tag_zero, (h.holds_iff r.tag_ne).mp hholds]
    · rw [accessAttempt_tag, h.tag_of_ne i hi]
  · -- the page is installed in the victim, which is way 0, with age zero
    have hways := serve_ways_of_not_holds (P := P) hholds
    rw [h.victim_eq] at hways
    refine ⟨fun i => ?_, ?_, fun i hi => ?_⟩
    · rw [hways]
      by_cases hi : i = 0
      · subst hi
        simp [loaded]
      · rw [Function.update_of_ne hi, h.used]
    · rw [hways, Function.update_self, loaded_tag]
    · rw [hways, Function.update_of_ne hi, h.tag_of_ne i hi]

/-- A fresh set has used no way. -/
theorem onlyWayZero_new (nVault nBank nLevel : ℕ) :
    (new nVault nBank nLevel : DramCacheSetUnison A).OnlyWayZero invalidTag :=
  ⟨fun _ => rfl, rfl, fun _ _ => rfl⟩

/-- Whatever is requested of a fresh set, only way 0 is used. -/
theorem OnlyWayZero.serveAll (h : S.OnlyWayZero t) (reqs : List PageRequest) :
    ∃ t, (S.serveAll P reqs).OnlyWayZero t := by
  unfold DramCacheSetUnison.serveAll
  refine List.foldlRecOn (motive := fun S : DramCacheSetUnison A => ∃ t, S.OnlyWayZero t) _ _
    ⟨t, h⟩ ?_
  rintro S ⟨t, ht⟩ r _
  exact ⟨r.tag, ht.serve r⟩

/-- After at least one request, way 0 holds the page requested last. -/
theorem OnlyWayZero.serveAll_append_singleton (h : S.OnlyWayZero t) (reqs : List PageRequest)
    (r : PageRequest) : (S.serveAll P (reqs ++ [r])).OnlyWayZero r.tag := by
  obtain ⟨t, ht⟩ := h.serveAll (P := P) reqs
  have hserve := ht.serve (P := P) r
  unfold DramCacheSetUnison.serveAll at hserve ⊢
  rwa [List.foldl_append]

/-- Only the page in way 0 is resident. -/
theorem OnlyWayZero.eq_of_resident (h : S.OnlyWayZero t) {tag : ℕ} (hres : S.Resident tag) :
    tag = t := ((h.holds_iff hres.1).mp hres.2).symm

/-- A fresh set holds no page. -/
theorem not_resident_new (nVault nBank nLevel : ℕ) :
    ¬ (new nVault nBank nLevel : DramCacheSetUnison A).Resident t :=
  fun hres => hres.1 ((onlyWayZero_new nVault nBank nLevel).eq_of_resident hres)

/-- After at least one request, the page requested last is resident and no other. -/
theorem OnlyWayZero.resident_append_singleton_iff (h : S.OnlyWayZero t) (reqs : List PageRequest)
    (r : PageRequest) {tag : ℕ} : (S.serveAll P (reqs ++ [r])).Resident tag ↔ tag = r.tag := by
  have hway := h.serveAll_append_singleton (P := P) reqs r
  constructor
  · exact hway.eq_of_resident
  · rintro rfl
    exact ⟨r.tag_ne, (hway.holds_iff r.tag_ne).mpr rfl⟩

/-- The requests concern at most one page. -/
def OnePage (reqs : List PageRequest) : Prop := ∀ r ∈ reqs, ∀ r' ∈ reqs, r.tag = r'.tag

omit [NeZero A] in
/-- Requests for several pages include one for another page than the last. -/
theorem exists_tag_ne_of_not_onePage {reqs : List PageRequest} {last : PageRequest}
    (h : ¬ OnePage (reqs ++ [last])) : ∃ b ∈ reqs.map PageRequest.tag, b ≠ last.tag := by
  by_contra hnone
  push Not at hnone
  have hall : ∀ r ∈ reqs ++ [last], r.tag = last.tag := by
    intro r hr
    rcases List.mem_append.mp hr with hr | hr
    · exact hnone _ (List.mem_map_of_mem hr)
    · rw [List.mem_singleton.mp hr]
  exact h fun r hr r' hr' => (hall r hr).trans (hall r' hr').symm

/-- The pages held are the most recently requested ones exactly if there is one way or one
page. -/
theorem resident_iff_recent_iff (P : Platform) (nVault nBank nLevel : ℕ)
    (reqs : List PageRequest) :
    (∀ t, ((new nVault nBank nLevel : DramCacheSetUnison A).serveAll P reqs).Resident t ↔
      t ∈ (reqs.map PageRequest.tag).recent.take A) ↔ A = 1 ∨ OnePage reqs := by
  have hnew := onlyWayZero_new (A := A) nVault nBank nLevel
  have hA : 1 ≤ A := Nat.one_le_iff_ne_zero.mpr (NeZero.ne A)
  -- before the first request both sides hold; after it, way 0 holds the last page
  rcases List.eq_nil_or_concat' reqs with rfl | ⟨init, last, rfl⟩
  · refine iff_of_true (fun t => ?_) (Or.inr fun r hr => absurd hr List.not_mem_nil)
    have hempty := not_resident_new (A := A) (t := t) nVault nBank nLevel
    simpa [List.recent, DramCacheSetUnison.serveAll] using hempty
  simp only [hnew.resident_append_singleton_iff, List.map_append, List.map_cons, List.map_nil]
  constructor
  · intro hres
    by_contra hcond
    rw [not_or] at hcond
    -- with two ways and two pages, another page than the last one is recent and not held
    obtain ⟨b, hb, hne⟩ := exists_tag_ne_of_not_onePage hcond.2
    obtain ⟨c, hc, hclast⟩ := List.exists_ne_mem_take_recent (show 2 ≤ A by omega) hb hne
    exact hclast ((hres c).mpr hc)
  · intro hcond t
    refine (List.mem_take_recent_iff hA (hcond.imp_right fun hpages b hb => ?_)).symm
    obtain ⟨r, hr, rfl⟩ := List.mem_map.mp hb
    exact hpages r (List.mem_append_left _ hr) last (by simp)

/-- The set is a least-recently-used one for the requests it has received exactly if it has one
way or has been asked for one page only. -/
theorem trueLru_iff (P : Platform) (nVault nBank nLevel : ℕ) (reqs : List PageRequest) :
    TrueLru P (new nVault nBank nLevel : DramCacheSetUnison A) reqs ↔ A = 1 ∨ OnePage reqs := by
  have hnew := onlyWayZero_new (A := A) nVault nBank nLevel
  have hresident := resident_iff_recent_iff (A := A) P nVault nBank nLevel reqs
  refine ⟨fun hlru => hresident.mp hlru.resident, fun hcond => ⟨hresident.mpr hcond, ?_, ?_⟩⟩
  · -- with one way the victim is that way; with one page no valid page is a victim
    rintro before r after rfl hmiss hvalid i
    obtain ⟨t, hway⟩ := hnew.serveAll (P := P) before
    rw [hway.victim_eq] at hvalid
    rcases hcond with hone | hpages
    · have hi : i = 0 := Fin.ext (by
        have := i.isLt
        rw [Fin.val_zero]
        omega)
      rwa [hi]
    · rcases List.eq_nil_or_concat' before with rfl | ⟨init, last, rfl⟩
      · exact absurd hvalid DramCachePageInfo.not_isValid_new
      · refine absurd ⟨0, ?_⟩ hmiss
        rw [(hnew.serveAll_append_singleton init last).tag_zero]
        exact hpages last (by simp) r (by simp)
  · -- no page but the victim is resident
    rintro before r after rfl hmiss hvalid t ht hne
    obtain ⟨u, hway⟩ := hnew.serveAll (P := P) before
    rw [hway.victim_eq, hway.tag_zero] at hne
    exact absurd (hway.eq_of_resident ht) hne

/-- A request to read the first bytes of a page. -/
def readPage (tag : ℕ) (h : tag ≠ invalidTag) : PageRequest where
  type := .read
  tag := tag
  offset := 0
  footprint := 0
  tag_ne := h
  offset_lt := by decide

/-- Two requests for page 1 of a set with four ways. -/
theorem trueLru_iff_four :
    let reqs := [readPage 1 (by decide), readPage 1 (by decide)]
    TrueLru .x86 (new 0 0 0 : DramCacheSetUnison 4) reqs ↔ 4 = 1 ∨ OnePage reqs :=
  trueLru_iff .x86 0 0 0 _

/-- Four ways and two pages: the second page replaces the first, although three ways are
invalid. -/
theorem not_trueLru_four :
    let page₁ := readPage 1 (by decide)
    let page₂ := readPage 2 (by decide)
    let S : DramCacheSetUnison 4 := new 0 0 0
    ((S.serveAll .x86 [page₁]).ways (S.serveAll .x86 [page₁]).victim).tag = 1 ∧
      ((S.serveAll .x86 [page₁]).ways 1).tag = invalidTag ∧
      ¬ TrueLru .x86 S [page₁, page₂] := by
  refine ⟨by decide, by decide, fun hlru => ?_⟩
  have hheld := ((hlru.resident 1).mpr (by decide)).2
  exact absurd hheld (by decide)

end DramCacheSetUnison

end StackedDram
