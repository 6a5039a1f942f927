import EchoKernel.BinderFree

namespace EchoKernel.Binder

open IntervalTiling List BinderPages

/-!
# Populating and giving up pages

A page that an allocated buffer needs is present and off the list of unused
pages; all others are absent or on it.
-/

/-- The page is present and in use. -/
def BinderLruPage.Active (page : BinderLruPage) : Prop := page.pagePtr = true ∧ page.lru = .empty

/-- The page is absent, or present and on the list. -/
def BinderLruPage.Idle (page : BinderLruPage) : Prop :=
  (page.pagePtr = false ∧ page.lru ≠ .linked) ∨ (page.pagePtr = true ∧ page.lru = .linked)

section
variable {pages : BinderPages}

theorem freePage_of_active
    {index : Nat}
    (active : (pages.page index).Active) :
    freePage pages index = pages.set index { pages.page index with lru := .linked } := by
  simp [freePage, listLruAdd, active.2, warnOn]

theorem foldl_freePage
    {indexes : List Nat}
    (distinct : indexes.Nodup)
    (active : ∀ index ∈ indexes, (pages.page index).Active) :
    (∀ index ∈ indexes, ((indexes.foldl freePage pages).page index).Idle) ∧
    (∀ index, index ∉ indexes → (indexes.foldl freePage pages).page index = pages.page index) ∧
    (indexes.foldl freePage pages).warnings = pages.warnings := by
  induction indexes generalizing pages with
  | nil => simp
  | cons first rest inductionHypothesis =>
    obtain ⟨outside, restDistinct⟩ := nodup_cons.mp distinct
    have firstActive := active first (by simp)
    have kept : ∀ index, index ≠ first → (freePage pages first).page index = pages.page index := by
      intro index different
      rw [freePage_of_active firstActive]
      simp [BinderPages.set, Function.update_of_ne different]
    have restActive : ∀ index ∈ rest, ((freePage pages first).page index).Active := by
      intro index inRest
      have different := ne_of_mem_of_not_mem inRest outside
      rw [kept index different]
      exact active index (by simp [inRest])
    obtain ⟨restIdle, restKept, sameWarnings⟩ := inductionHypothesis restDistinct restActive
    refine ⟨?_, ?_, ?_⟩
    · intro index member
      rcases mem_cons.mp member with rfl | inRest
      · rw [foldl_cons, restKept index outside, freePage_of_active firstActive]
        simp [BinderPages.set, BinderLruPage.Idle, firstActive.1]
      · exact restIdle index inRest
    · intro index notMember
      rw [mem_cons, not_or] at notMember
      rw [foldl_cons, restKept index notMember.2, kept index notMember.1]
    · rw [foldl_cons, sameWarnings, freePage_of_active firstActive]
      rfl

/-- What the loop that populates pages leaves in both cases. -/
structure Populated (pages : BinderPages) (indexes : List Nat) (result : BinderPages)
    (ret : Option Errno) : Prop where
  onSuccess : ret = none → ∀ index ∈ indexes, (result.page index).Active
  onFailure : ret ≠ none → ∀ index ∈ indexes, (result.page index).Idle
  others : ∀ index, index ∉ indexes → result.page index = pages.page index
  warnings : result.warnings = pages.warnings

theorem Populated.congr {indexes others : List Nat} {result : BinderPages} {ret : Option Errno}
    (populated : Populated pages indexes result ret)
    (same : ∀ index, index ∈ indexes ↔ index ∈ others) : Populated pages others result ret where
  onSuccess succeeded index member := populated.onSuccess succeeded index ((same index).mpr member)
  onFailure failed index member := populated.onFailure failed index ((same index).mpr member)
  others index notMember :=
    populated.others index (fun member => notMember ((same index).mp member))
  warnings := populated.warnings

/-- A failure gives up the pages before it and keeps those after it. -/
theorem populated_of_failure
    {todo done : List Nat}
    {current : BinderPages}
    {errno : Errno}
    (distinct : (todo ++ done).Nodup)
    (idle : ∀ index ∈ todo, (current.page index).Idle)
    (active : ∀ index ∈ done, (current.page index).Active)
    (others : ∀ index, index ∉ todo ++ done → current.page index = pages.page index)
    (warnings : current.warnings = pages.warnings) :
    Populated pages (todo ++ done) (done.foldl freePage current) (some errno) := by
  obtain ⟨doneIdle, doneKept, sameWarnings⟩ := foldl_freePage (nodup_append.mp distinct).2.1 active
  refine ⟨by simp, ?_, ?_, sameWarnings.trans warnings⟩
  · intro _ index member
    by_cases inDone : index ∈ done
    · exact doneIdle index inDone
    rw [doneKept index inDone]
    rcases mem_append.mp member with inTodo | inDone'
    · exact idle index inTodo
    · exact absurd inDone' inDone
  · intro index notMember
    have notDone : index ∉ done := by
      intro inDone
      exact notMember (mem_append_right _ inDone)
    rw [doneKept index notDone]
    exact others index notMember

theorem exists_allocatePages
    (env : AllocEnv)
    {vma : Bool}
    {todo done : List Nat}
    {current : BinderPages}
    (distinct : (todo ++ done).Nodup)
    (idle : ∀ index ∈ todo, (current.page index).Idle)
    (active : ∀ index ∈ done, (current.page index).Active)
    (present : vma = true ∨ ∀ index ∈ todo, (current.page index).pagePtr = true)
    (others : ∀ index, index ∉ todo ++ done → current.page index = pages.page index)
    (warnings : current.warnings = pages.warnings) :
    ∃ result ret,
    allocatePages env vma todo done current = some (result, ret) ∧
    Populated pages (todo ++ done) result ret := by
  induction todo generalizing done current with
  | nil =>
    refine ⟨current, none, rfl, ?_, by simp, others, warnings⟩
    intro _ index member
    exact active index (by simpa using member)
  | cons first rest inductionHypothesis =>
    have headOut : first ∉ rest ++ done := (nodup_cons.mp distinct).1
    obtain ⟨notInRest, notInDone⟩ := not_or.mp (mem_append.not.mp headOut)
    have continues : ∀ next : BinderPages, (next.page first).Active → (∀ index, index ≠ first →
        next.page index = current.page index) → next.warnings = current.warnings →
        ∃ result ret, allocatePages env vma rest (first :: done) next = some (result, ret) ∧
        Populated pages (first :: rest ++ done) result ret := by
      intro next firstActive kept sameWarnings
      have restKept : ∀ index ∈ rest, next.page index = current.page index :=
        fun index inRest => kept index (ne_of_mem_of_not_mem inRest notInRest)
      obtain ⟨result, ret, allocated, populated⟩ :=
        @inductionHypothesis (first :: done) next
          (nodup_middle.mpr distinct)
          (fun index inRest => by
            rw [restKept index inRest]
            exact idle index (by simp [inRest]))
          (fun index member => by
            rcases mem_cons.mp member with rfl | inDone
            · exact firstActive
            · rw [kept index (by rintro rfl; exact notInDone inDone)]
              exact active index inDone)
          (present.imp id fun allPresent index inRest => by
            rw [restKept index inRest]
            exact allPresent index (by simp [inRest]))
          (fun index notMember => by
            have notFirst : index ≠ first := by
              rintro rfl
              exact notMember (by simp)
            rw [kept index notFirst]
            refine others index ?_
            simpa [notFirst] using notMember)
          (sameWarnings.trans warnings)
      have sameMembers : ∀ index, index ∈ rest ++ first :: done ↔ index ∈ first :: rest ++ done :=
        fun index => perm_middle.mem_iff
      exact ⟨result, ret, allocated, populated.congr sameMembers⟩
    have fails : ∀ (next : BinderPages) (errno : Errno), (next.page first).Idle →
        (∀ index, index ≠ first → next.page index = current.page index) →
        next.warnings = current.warnings → Populated pages (first :: rest ++ done)
        (done.foldl freePage next) (some errno) := by
      intro next errno firstIdle kept sameWarnings
      refine populated_of_failure distinct ?_ ?_ ?_ (sameWarnings.trans warnings)
      · intro index member
        rcases mem_cons.mp member with rfl | inRest
        · exact firstIdle
        · rw [kept index (by rintro rfl; exact notInRest inRest)]
          exact idle index member
      · intro index inDone
        rw [kept index (by rintro rfl; exact notInDone inDone)]
        exact active index inDone
      · intro index notMember
        rw [kept index (by rintro rfl; exact notMember (by simp))]
        exact others index notMember
    have setKept : ∀ (page : BinderLruPage) (index : Nat), index ≠ first →
        (current.set first page).page index = current.page index :=
      fun page index different => by simp [BinderPages.set, Function.update_of_ne different]
    have setFirst : ∀ page : BinderLruPage, (current.set first page).page first = page :=
      fun page => by simp [BinderPages.set]
    rcases idle first (by simp) with
      ⟨absent, notLinked⟩ | ⟨isPresent, linked⟩
    · have mapped : vma = true := by
        rcases present with mapped | allPresent
        · exact mapped
        · rw [allPresent first (by simp)] at absent
          cases absent
      subst mapped
      unfold allocatePages
      simp only [absent, ↓reduceIte]
      cases env.page first with
      | mapped => exact continues _ ⟨by rw [setFirst], by rw [setFirst]⟩ (setKept _) rfl
      | allocPageFailed =>
        exact ⟨_, _, rfl, fails current .enomem (.inl ⟨absent, notLinked⟩) (fun _ _ => rfl) rfl⟩
      | mapKernelFailed | vmInsertPageFailed =>
        exact ⟨_, _, rfl, fails _ .enomem (by rw [setFirst]; exact .inl (by simp)) (setKept _) rfl⟩
    · unfold allocatePages
      simp only [isPresent, ↓reduceIte, listLruDel, linked, Bool.not_true,
        warnOn, Bool.false_eq_true]
      exact continues _ ⟨by rw [setFirst], by rw [setFirst]⟩ (setKept _) rfl

end

section
variable {base start finish : Nat}

/-- The pages populated by one call for a range, in loop order. -/
def allocateIndexes (base start finish : Nat) : List Nat :=
  if finish ≤ start then [] else indexesUp base start finish

section
variable (startAligned : start % pageSize = base % pageSize)
  (finishAligned : finish % pageSize = base % pageSize) (inside : base ≤ start) {index : Nat}
include startAligned finishAligned inside

/-- The pages from one page boundary up to another. -/
theorem mem_allocateIndexes :
    index ∈ allocateIndexes base start finish ↔ start ≤ base + index * pageSize ∧
    base + index * pageSize < finish := by
  simp only [pageSize] at startAligned finishAligned ⊢
  rw [allocateIndexes, mem_ite_nil_left]
  simp only [indexesUp, pageSize, mem_map, mem_range]
  constructor
  · omega
  · rintro ⟨above, below⟩
    exact ⟨by omega, index - (start - base) / 4096, by omega, by omega⟩

/-- The pages from one page boundary down to another. -/
theorem mem_freeIndexes :
    index ∈ freeIndexes base start finish ↔ start ≤ base + index * pageSize ∧
    base + index * pageSize < finish := by
  simp only [pageSize] at startAligned finishAligned ⊢
  rw [freeIndexes, mem_ite_nil_left]
  simp only [indexesDown, pageSize, mem_map, mem_range]
  constructor
  · omega
  · rintro ⟨above, below⟩
    exact ⟨by omega, (finish - base) / 4096 - 1 - index, by omega, by omega⟩

end

/-- No page is populated twice. -/
theorem nodup_allocateIndexes
    (inside : base ≤ start) :
    (allocateIndexes base start finish).Nodup := by
  unfold allocateIndexes
  split
  · exact nodup_nil
  refine nodup_range.map_on ?_
  intro first _ second _ same
  simp only [pageSize] at same
  omega

/-- No page is given up twice. -/
theorem nodup_freeIndexes (inside : base ≤ start) : (freeIndexes base start finish).Nodup := by
  unfold freeIndexes
  split
  · exact nodup_nil
  refine nodup_range.map_on ?_
  intro first firstBound second secondBound same
  simp only [pageSize, mem_range] at same firstBound secondBound
  omega

end

/-- Populating a range changes the pages only. -/
theorem exists_allocatePageRange
    (env : AllocEnv)
    (alloc : BinderAlloc)
    {start finish : Nat}
    (inside : alloc.buffer ≤ start)
    (idle : ∀ index ∈ allocateIndexes alloc.buffer start finish, (alloc.pages.page index).Idle) :
    ∃ pages ret, allocatePageRange env alloc start finish =
          some ({ alloc with pages := pages }, ret) ∧
        Populated alloc.pages (allocateIndexes alloc.buffer start finish) pages ret := by
  have distinct := @nodup_allocateIndexes alloc.buffer start finish inside
  unfold allocatePageRange
  unfold allocateIndexes at idle distinct ⊢
  by_cases empty : finish ≤ start
  · simp only [empty]
    exact ⟨alloc.pages, none, rfl, by simp, by simp, by simp, rfl⟩
  simp only [empty] at idle distinct ⊢
  generalize indexesUp alloc.buffer start finish = indexes at *
  generalize needed : (indexes.any fun index => !(alloc.pages.page index).pagePtr) = needMm
  generalize mapped : (needMm && env.mmgetNotZero && alloc.vma) = vma
  cases missing : (needMm && !vma) with
  | true =>
    exact ⟨alloc.pages, some .esrch, rfl, by simp, fun _ => idle, fun _ _ => rfl, rfl⟩
  | false =>
    have present : vma = true ∨ ∀ index ∈ indexes, (alloc.pages.page index).pagePtr = true := by
      cases vma with
      | true => exact .inl rfl
      | false =>
        right
        have allPresent : needMm = false := by simpa using missing
        rw [allPresent, any_eq_false] at needed
        intro index member
        simpa using needed index member
    obtain ⟨result, ret, allocated, populated⟩ :=
      @exists_allocatePages alloc.pages env vma indexes [] alloc.pages
        (by simpa using distinct) idle (by simp) present (fun _ _ => rfl) rfl
    rw [append_nil] at populated
    refine ⟨result, ret, ?_, populated⟩
    simp [allocated]

end EchoKernel.Binder
