import AndroidLearn.Ghost.Steps

/-!
# The monitor's loop keeps the invariant

The loop over the events of `thread_main` in `ghost.c`: `handle` takes the next event from
the batch, and `operate` makes the change it decides on.

When the monitor takes an event from the batch, the event was true or a later one of the
same file is under way. So after the operation it decides on, the file is the same in both
directories, or it is looked at again (`inv_copy`, `inv_delete`).

An event of the destination is passed over if its kind is on the list. That it is then one
that the monitor caused, and that one the monitor caused is passed over, is `Books.inTurn`
and `Books.onList` (`Books.own_of_list`, `Books.list_of_own`); nothing is asked of the
event itself.
-/

namespace AndroidLearn.Ghost

open Coalesce

variable {s s' : State} {name : String} {kind : Kind}

/-- The thread is between two events, or gives the lock back. -/
def Pc.between (pc : Pc) : Prop := pc = .idle ∨ pc = .events

/-- Behind an event the mirror is between two events. -/
theorem endEvent_between (s : State) : (if s.batch = [] then Pc.idle else .events).between := by
  unfold Pc.between
  split
  · exact .inl rfl
  · exact .inr rfl

theorem Pc.between.not_copying {pc : Pc} (h : pc.between) : ¬ pc.copying := by
  rcases h with rfl | rfl <;> exact id

theorem Pc.between.not_come {pc : Pc} (h : pc.between) (src : Dir) : ¬ pc.toCome src name := by
  rcases h with rfl | rfl <;> exact id

theorem Pc.between.ne_op {pc : Pc} (h : pc.between) (o : Op) : pc ≠ .op o := by
  rcases h with rfl | rfl <;> exact Pc.noConfusion

/-- An event is done with. -/
theorem Books.endEvent (h : Books s) : Books s.endEvent := by
  have hpc := endEvent_between s
  refine h.same ⟨rfl, rfl, rfl, rfl, rfl, rfl, fun _ => ⟨rfl, id⟩⟩ ?_ ?_ ?_
  · rintro (hcopying | hsync)
    · exact absurd hcopying hpc.not_copying
    · rcases hpc with hidle | hevents
      · exact absurd (hidle.symm.trans hsync) (by simp)
      · exact absurd (hevents.symm.trans hsync) (by simp)
  · intro o ho
    exact absurd ho (hpc.ne_op o)
  · intro hadd
    have hadd : (if s.batch = [] then Pc.idle else .events) = .addDst := hadd
    rw [hadd] at hpc
    rcases hpc with hpc | hpc <;> exact absurd hpc (by simp)

/-! ## Taking an event -/

theorem pending_cons {n : Notice} {rest : List Notice} (hbatch : s.batch = n :: rest) :
    s.pending = n :: (rest ++ s.queue) := by
  unfold State.pending
  rw [hbatch, List.cons_append]

/-- An event is taken out, and out of the list if it was expected. -/
theorem Books.pop (h : Books s) {n : Notice} {rest : List Notice} {list : List Kind} {discarded : Bool}
    (hbatch : s.batch = n :: rest) (hdst : ∀ wd, s.wdDst = some wd → n ≠ .ignored wd)
    (hlist : ∀ k, s.dropList.count k = list.count k + if n.isOwn k then 1 else 0) :
    Books { s with batch := rest, dropList := list, discarded := discarded } := by
  have hpending := pending_cons hbatch
  have hmem : ∀ m ∈ rest ++ s.queue, m ∈ s.pending := by
    intro m hm
    rw [hpending]
    exact List.mem_cons_of_mem _ hm
  constructor
  · intro m hm
    exact h.fresh m (hmem m hm)
  · exact h.freshSrc
  · exact h.freshDst
  · exact h.apart
  · exact h.both
  · exact h.watched
  · exact h.syncing
  · exact h.operating
  · exact h.adding
  · intro k
    have hcount := h.onList k
    rw [hpending, List.countP_cons, hlist k] at hcount
    show list.count k = (rest ++ s.queue).countP _
    omega
  · intro wd k g hm
    exact h.ownDst wd k g (hmem _ hm)
  · intro wd hwd hm
    exact h.srcKept wd hwd (hmem _ hm)
  · intro wd hwd
    rw [h.dead wd hwd, hpending]
    show _ ↔ _ ∈ rest ++ s.queue
    rw [List.mem_cons, or_iff_right (hdst wd hwd).symm]
  · intro wd pre suf hwd hsplit
    refine h.last wd (n :: pre) suf hwd ?_
    rw [hpending]
    exact congrArg _ hsplit
  · intro wd k g pre suf hwd hsplit
    refine h.inTurn wd k g (n :: pre) suf hwd ?_
    rw [hpending]
    exact congrArg _ hsplit

/-- The event tells of a change of the file by others. -/
def Notice.tells (s : State) (name : String) : Notice → Prop
  | .file wd _ name' own => name' = name ∧ (s.wdSrc = some wd ∨ s.wdDst = some wd ∧ own = false)
  | .ignored _ => False

/-- An event that is taken out leaves no difference without one, if it is acted on. -/
theorem Files.pop (hb : Books s) (h : Files s) {n : Notice} {rest : List Notice} {list : List Kind}
    {discarded : Bool} {pc : Pc} (hbatch : s.batch = n :: rest) (hpc : s.pc.between)
    (hheard : discarded = false) (hcopying : ¬ pc.copying)
    (hcopy : ∀ g, pc = .op (.copy g) → g ∈ s.src ∨ s.LiveSrc (rest ++ s.queue) g)
    (hdelete : ∀ g, pc = .op (.delete g) → g ∉ s.src ∨ s.LiveSrc (rest ++ s.queue) g)
    (hsettled : ∀ g, n.tells s g → s.wdDst ≠ none → s.dstWatch ≠ none →
      s.dstFile g = s.src.lookup g ∨ s.Live (rest ++ s.queue) g ∨ pc.toCome s.src g) :
    Files { s with batch := rest, dropList := list, discarded := discarded, pc := pc } := by
  have hpending := pending_cons hbatch
  constructor
  · intro wd k g own pre suf hwd hsplit
    refine h.srcTrue wd k g own (n :: pre) suf hwd ?_
    rw [hpending]
    exact congrArg _ hsplit
  · intro wd g pre suf hwd halive hsplit
    refine h.dstTrue wd g (n :: pre) suf hwd halive ?_
    rw [hpending]
    exact congrArg _ hsplit
  · exact hcopy
  · exact hdelete
  · intro hfail hon g
    have halive : s.dstWatch ≠ none := hon.2.resolve_left hcopying
    obtain ⟨⟨wd', st⟩, hwatch⟩ := Option.ne_none_iff_exists'.mp halive
    have hdst : s.wdDst ≠ none := by
      rw [(hb.watched wd' st hwatch).1]
      simp
    by_cases htells : n.tells s g
    · exact hsettled g htells hdst halive
    · rcases h.settled hfail ⟨hon.1, .inr halive⟩ g with hequal | hlive | hcome
      · exact .inl hequal
      · -- the event that tells of it is another one
        rw [hpending] at hlive
        rcases hlive with ⟨wd, k, own, hwd, hm⟩ | ⟨wd, k, hwd, hm⟩
        · rcases List.mem_cons.mp hm with rfl | hm
          · exact absurd ⟨rfl, .inl hwd⟩ htells
          · exact .inr (.inl (.inl ⟨wd, k, own, hwd, hm⟩))
        · rcases List.mem_cons.mp hm with rfl | hm
          · exact absurd ⟨rfl, .inr ⟨hwd, rfl⟩⟩ htells
          · exact .inr (.inl (.inr ⟨wd, k, hwd, hm⟩))
      · exact absurd hcome (hpc.not_come _)
  · exact hheard

/-- It decides on an operation. -/
theorem Books.setOp (h : Books s) (o : Op) (hdst : s.wdDst ≠ none) : Books { s with pc := .op o } := by
  refine h.same ⟨rfl, rfl, rfl, rfl, rfl, rfl, fun _ => ⟨rfl, id⟩⟩ ?_ ?_ ?_
  · rintro (hcopying | hsync)
    · exact hcopying.elim
    · exact absurd hsync (by simp)
  · intro _ _
    exact hdst
  · intro hadd
    exact absurd hadd (by simp)

/-- An event that calls for nothing is passed over. -/
theorem inv_skip (hinv : Inv s) {n : Notice} {rest : List Notice} {list : List Kind}
    {discarded : Bool} (hbatch : s.batch = n :: rest) (hpc : s.pc.between)
    (hheard : discarded = false) (hdst : ∀ wd, s.wdDst = some wd → n ≠ .ignored wd)
    (hlist : ∀ k, s.dropList.count k = list.count k + if n.isOwn k then 1 else 0)
    (hsettled : ∀ g, n.tells s g → s.wdDst ≠ none → s.dstWatch ≠ none →
      s.dstFile g = s.src.lookup g ∨ s.Live (rest ++ s.queue) g) :
    Inv (State.endEvent { s with batch := rest, dropList := list, discarded := discarded }) := by
  have hbetween := endEvent_between { s with batch := rest, dropList := list, discarded := discarded }
  refine ⟨(hinv.books.pop hbatch hdst hlist).endEvent, ?_⟩
  refine hinv.files.pop hinv.books hbatch hpc hheard hbetween.not_copying ?_ ?_ ?_
  · intro g hg
    exact absurd hg (hbetween.ne_op _)
  · intro g hg
    exact absurd hg (hbetween.ne_op _)
  · intro g htells hwd hwatch
    exact (hsettled g htells hwd hwatch).imp_right .inl

/-- An event that calls for an operation is answered by it. -/
theorem inv_decide (hinv : Inv s) {n : Notice} {rest : List Notice} {o : Op}
    (hbatch : s.batch = n :: rest) (hpc : s.pc.between) (hdst : s.wdDst ≠ none)
    (hfile : ∀ wd, s.wdDst = some wd → n ≠ .ignored wd) (hown : ∀ k, n.isOwn k = false)
    (hcopy : ∀ g, o = .copy g → g ∈ s.src ∨ s.LiveSrc (rest ++ s.queue) g)
    (hdelete : ∀ g, o = .delete g → g ∉ s.src ∨ s.LiveSrc (rest ++ s.queue) g)
    (hsettled : ∀ g, n.tells s g → (Pc.op o).toCome s.src g) :
    Inv { s with batch := rest, pc := .op o } := by
  have hlist : ∀ k, s.dropList.count k = s.dropList.count k + if n.isOwn k then 1 else 0 := by
    intro k
    rw [hown k, if_neg Bool.false_ne_true, Nat.add_zero]
  have hbooks : Books { s with batch := rest } := hinv.books.pop hbatch hfile hlist
  refine ⟨hbooks.setOp o hdst, ?_⟩
  refine hinv.files.pop hinv.books hbatch hpc hinv.files.heard id ?_ ?_ ?_
  · intro g hg
    exact hcopy g (Pc.op.inj hg)
  · intro g hg
    exact hdelete g (Pc.op.inj hg)
  · intro g htells _ _
    exact .inr (.inr (hsettled g htells))

/-! ## `IN_IGNORED` -/

/-- The watch of the destination is forgotten when it is gone. -/
theorem Books.forgetDst (h : Books s) {wd : Nat} {rest : List Notice}
    (hbatch : s.batch = .ignored wd :: rest) (hwd : s.wdDst = some wd) (hpc : s.pc.between) :
    Books { s with batch := rest, wdDst := none } := by
  have hpending := pending_cons hbatch
  have hmem : ∀ m ∈ rest ++ s.queue, m ∈ s.pending := by
    intro m hm
    rw [hpending]
    exact List.mem_cons_of_mem _ hm
  have hwatch : s.dstWatch = none := (h.dead wd hwd).mpr (by rw [hpending]; exact List.mem_cons_self)
  constructor
  · intro m hm
    exact h.fresh m (hmem m hm)
  · exact h.freshSrc
  · intro wd' hwd'
    exact absurd hwd' (by simp)
  · intro wd' _
    simp
  · intro hnone
    exact absurd rfl hnone
  · intro wd' st hst
    exact absurd (hwatch.symm.trans hst) (by simp)
  · intro _
    rfl
  · intro o ho
    exact absurd ho (hpc.ne_op o)
  · exact h.adding
  · intro k
    have hcount := h.onList k
    rw [hpending, List.countP_cons] at hcount
    exact hcount
  · intro wd' k g hm
    have hown := h.ownDst wd' k g (hmem _ hm)
    obtain rfl := Option.some.inj (hwd.symm.trans hown)
    exact absurd rfl (h.last wd [] _ hwd hpending _ hm)
  · intro wd' hwd' hm
    exact h.srcKept wd' hwd' (hmem _ hm)
  · intro wd' hwd'
    exact absurd hwd' (by simp)
  · intro wd' pre suf hwd'
    exact absurd hwd' (by simp)
  · intro wd' k g pre suf hwd'
    exact absurd hwd' (by simp)

/-- Without a watch on the destination, only the sync has files to look at. -/
theorem Files.unwatched (hdst : s.wdDst = none) (hwatch : s.dstWatch = none)
    (hop : ∀ o, s.pc ≠ .op o) (hsrc : s.SrcTrue) (hheard : s.discarded = false)
    (hsettled : s.failed = false → s.dstDir ≠ none → s.pc.copying → ∀ g, s.Settled g) :
    Files s where
  srcTrue := hsrc
  dstTrue wd g pre suf hwd := absurd (hdst.symm.trans hwd) (by simp)
  opCopy g hpc := absurd hpc (hop _)
  opDelete g hpc := absurd hpc (hop _)
  settled hfail hon := hsettled hfail hon.1 (hon.2.resolve_right fun h => h hwatch)
  heard := hheard

theorem Books.setPc (h : Books s) {pc : Pc} (hdst : s.wdDst = none) (hop : ∀ o, pc ≠ .op o)
    (hadd : pc = .addDst → s.wdSrc ≠ none) : Books { s with pc := pc } :=
  h.same ⟨rfl, rfl, rfl, rfl, rfl, rfl, fun _ => ⟨rfl, id⟩⟩ (fun _ => hdst) (fun o ho => absurd ho (hop o)) hadd

/-- The destination is made, and all files are to be copied to it. -/
theorem settled_created (s : State) (created : Bool) (hup : s.mounted s.pathDst = true) (g : String) :
    State.Settled { s.setDst s.pathDst (some ∅) with pc := .copyAll created s.src.keys } g := by
  by_cases hg : g ∈ s.src
  · exact .inr (.inr hg)
  · refine .inl ?_
    show ((s.setDst s.pathDst (some ∅)).dirAt s.pathDst).bind _ = s.src.lookup g
    rw [dirAt_setDst hup, AList.lookup_eq_none.mpr hg]
    rfl

theorem SrcTrue.pop (h : s.SrcTrue) {n : Notice} {rest : List Notice} (hbatch : s.batch = n :: rest) :
    State.SrcTrue { s with batch := rest, wdDst := none } := by
  intro wd k g own pre suf hwd hsplit
  refine h wd k g own (n :: pre) suf hwd ?_
  rw [pending_cons hbatch]
  exact congrArg _ hsplit

/-- A watch that is gone. -/
theorem inv_handleIgnored (hinv : Inv s) {wd : Nat} {rest : List Notice}
    (hbatch : s.batch = .ignored wd :: rest) (hpc : s.pc.between) :
    Inv (State.handleIgnored { s with batch := rest } wd) := by
  have hpending := pending_cons hbatch
  unfold State.handleIgnored
  split
  next hwd =>
    exact absurd (by rw [hpending]; exact List.mem_cons_self) (hinv.books.srcKept wd hwd)
  next hsrc =>
    split
    next hwd =>
      have hwatch : s.dstWatch = none :=
        (hinv.books.dead wd hwd).mpr (by rw [hpending]; exact List.mem_cons_self)
      have hbooks := hinv.books.forgetDst hbatch hwd hpc
      have hsrcTrue := SrcTrue.pop hinv.files.srcTrue hbatch
      dsimp only
      split
      next hmissing =>
        refine ⟨?_, ?_⟩
        · exact (hbooks.setDst s.pathDst ∅).setPc rfl (fun o => Pc.noConfusion) Pc.noConfusion
        · refine .unwatched rfl hwatch (fun o => Pc.noConfusion) hsrcTrue hinv.files.heard ?_
          intro _ _ _ g
          exact settled_created { s with batch := rest, wdDst := none } false hmissing.1 g
      next =>
        have hbetween := endEvent_between { s with batch := rest, wdDst := none }
        refine ⟨hbooks.endEvent, ?_⟩
        refine .unwatched rfl hwatch hbetween.ne_op hsrcTrue hinv.files.heard ?_
        intro _ _ hcopying
        exact absurd hcopying hbetween.not_copying
    next hdst =>
      refine inv_skip hinv hbatch hpc
        hinv.files.heard ?_ (fun _ => rfl) ?_
      · rintro wd' hwd' heq
        obtain rfl := Notice.ignored.inj heq
        exact hdst hwd'
      · intro g htells
        exact htells.elim

/-! ## Events of files -/

/-- No event of the source is the monitor's own. -/
theorem Books.src_not_own (h : Books s) {wd : Nat} {own : Bool} (hwd : s.wdSrc = some wd)
    (hmem : .file wd kind name own ∈ s.pending) : own = false := by
  cases own with
  | false => rfl
  | true => exact absurd (h.ownDst wd kind name hmem) (h.apart wd hwd)

/-- An event of the source. -/
theorem inv_handleSrc (hinv : Inv s) {wd : Nat} {own : Bool} {rest : List Notice}
    (hbatch : s.batch = .file wd kind name own :: rest) (hpc : s.pc.between)
    (hwd : s.wdSrc = some wd) : Inv (State.handleSrc { s with batch := rest } kind name) := by
  have hpending := pending_cons hbatch
  obtain rfl := hinv.books.src_not_own hwd (by rw [hpending]; exact List.mem_cons_self)
  have htrue := hinv.files.srcTrue wd kind name false [] _ hwd hpending
  have htells : ∀ g, Notice.tells s g (.file wd kind name false) → name = g := fun g h => h.1
  unfold State.handleSrc
  split
  next hnone =>
    refine inv_skip hinv hbatch hpc
      hinv.files.heard (fun _ _ => Notice.noConfusion) (fun _ => rfl) ?_
    intro g _ hdst
    exact absurd hnone hdst
  next hdst =>
    cases kind with
    | delete =>
      refine inv_decide hinv hbatch hpc hdst (fun _ _ => Notice.noConfusion) (fun _ => rfl) ?_ ?_ htells
      · intro g hg
        exact absurd hg (by simp)
      · intro g hg
        obtain rfl := Op.delete.inj hg
        exact htrue.imp_left fun h => h.mp rfl
    | closeWrite =>
      refine inv_decide hinv hbatch hpc hdst (fun _ _ => Notice.noConfusion) (fun _ => rfl) ?_ ?_ htells
      · intro g hg
        obtain rfl := Op.copy.inj hg
        refine htrue.imp_left fun h => ?_
        by_contra hmem
        exact absurd (h.mpr hmem) (by simp)
      · intro g hg
        exact absurd hg (by simp)

/-- An event on the list is one of those under way. -/
theorem Books.list_of_own (h : Books s) {wd : Nat} (hmem : .file wd kind name true ∈ s.pending) :
    kind ∈ s.dropList := by
  rw [← List.count_pos_iff, h.onList kind, List.countP_pos_iff]
  exact ⟨_, hmem, by simp [Notice.isOwn]⟩

/-- An event of a change by others is not passed over. -/
theorem Books.own_of_list (h : Books s) {wd : Nat} {own : Bool} {rest : List Notice}
    (hbatch : s.batch = .file wd kind name own :: rest) (hwd : s.wdDst = some wd)
    (hlisted : kind ∈ s.dropList) : own = true := by
  have hpending := pending_cons hbatch
  cases own with
  | true => rfl
  | false =>
    -- the event on the list would come behind it
    have hpos := List.count_pos_iff.mpr hlisted
    rw [h.onList kind, hpending, List.countP_cons_of_neg Bool.false_ne_true,
      List.countP_pos_iff] at hpos
    obtain ⟨n, hn, hown⟩ := hpos
    exact absurd (h.inTurn wd kind name [] _ hwd hpending n hn) (by rw [hown]; simp)

/-- An event of the destination. -/
theorem inv_handleDst (hinv : Inv s) {wd : Nat} {own : Bool} {rest : List Notice}
    (hbatch : s.batch = .file wd kind name own :: rest) (hpc : s.pc.between)
    (hsrc : s.wdSrc ≠ some wd) (hwd : s.wdDst = some wd) :
    Inv (State.handleDst { s with batch := rest } kind name own) := by
  have hpending := pending_cons hbatch
  have hhead : .file wd kind name own ∈ s.pending := by
    rw [hpending]
    exact List.mem_cons_self
  have hdst : s.wdDst ≠ none := by
    rw [hwd]
    simp
  unfold State.handleDst
  split
  next hlisted =>
    obtain rfl := hinv.books.own_of_list hbatch hwd hlisted
    refine inv_skip hinv hbatch hpc ?_ (fun _ _ => Notice.noConfusion) ?_ ?_
    · show (s.discarded || !true) = false
      rw [hinv.files.heard]
      rfl
    · intro k
      show s.dropList.count k = (s.dropList.erase kind).count k + _
      by_cases hk : k = kind
      · subst hk
        have hpos : 0 < s.dropList.count k := List.count_pos_iff.mpr hlisted
        rw [List.count_erase_self, if_pos (by simp [Notice.isOwn])]
        omega
      · rw [List.count_erase_of_ne hk, if_neg (by simp [Notice.isOwn, Ne.symm hk])]
        rfl
    · intro g htells
      rcases htells.2 with h | ⟨-, h⟩
      · exact absurd h hsrc
      · exact absurd h (by simp)
  next hnot =>
    obtain rfl : own = false := by
      cases own with
      | false => rfl
      | true => exact absurd (hinv.books.list_of_own hhead) hnot
    have htells : ∀ g, Notice.tells s g (.file wd kind name false) → name = g := fun g h => h.1
    have hcopy : name ∈ s.src → Inv { s with batch := rest, pc := .op (.copy name) } := by
      intro hmem
      refine inv_decide hinv hbatch hpc hdst (fun _ _ => Notice.noConfusion) (fun _ => rfl) ?_ ?_ htells
      · intro g hg
        obtain rfl := Op.copy.inj hg
        exact .inl hmem
      · intro g hg
        exact absurd hg (by simp)
    cases kind with
    | delete =>
      dsimp only
      split
      next hmem => exact hcopy hmem
      next hmem =>
        refine inv_skip hinv hbatch hpc
          hinv.files.heard (fun _ _ => Notice.noConfusion) (fun _ => rfl) ?_
        intro g hg _ hwatch
        obtain rfl := htells g hg
        have hmem : name ∉ s.src := hmem
        rcases hinv.files.dstTrue wd name [] _ hwd hwatch hpending with hnone | hin | hlive
        · exact .inl (by rw [hnone, AList.lookup_eq_none.mpr hmem])
        · exact absurd hin hmem
        · exact .inr hlive
    | closeWrite =>
      dsimp only
      split
      next hmem => exact hcopy hmem
      next hmem =>
        refine inv_decide hinv hbatch hpc hdst (fun _ _ => Notice.noConfusion) (fun _ => rfl) ?_ ?_ htells
        · intro g hg
          exact absurd hg (by simp)
        · intro g hg
          obtain rfl := Op.delete.inj hg
          exact .inl hmem

/-- Any event. -/
theorem inv_handle (hinv : Inv s) (hpc : s.pc.between) : Inv s.handle := by
  unfold State.handle
  split
  next => exact hinv
  next n rest hbatch =>
    dsimp only
    split
    next wd => exact inv_handleIgnored hinv hbatch hpc
    next wd kind name own =>
      split
      next hsrc => exact inv_handleSrc hinv hbatch hpc hsrc
      next hsrc =>
        split
        next hdst => exact inv_handleDst hinv hbatch hpc hsrc hdst
        next hdst =>
          -- the watch was removed
          refine inv_skip hinv hbatch hpc
            hinv.files.heard (fun _ _ => Notice.noConfusion) ?_ ?_
          · intro k
            cases own with
            | false => rfl
            | true =>
              refine absurd (hinv.books.ownDst wd kind name ?_) hdst
              rw [pending_cons hbatch]
              exact List.mem_cons_self
          · intro g htells
            rcases htells.2 with h | ⟨h, -⟩
            · exact absurd h hsrc
            · exact absurd h hdst

/-! ## The operation -/

/-- Behind an operation the file it was about is in step. -/
theorem Files.endOp (h : Files s) {o : Op} {pc : Pc} (hop : s.pc = .op o) (hpc : pc.between)
    (hsettled : ∀ g, (Pc.op o).toCome s.src g → s.dstDir ≠ none →
      s.dstFile g = s.src.lookup g ∨ s.Live s.pending g) : Files { s with pc := pc } := by
  constructor
  · exact h.srcTrue
  · exact h.dstTrue
  · intro g hg
    exact absurd hg (hpc.ne_op _)
  · intro g hg
    exact absurd hg (hpc.ne_op _)
  · intro hfail hon g
    have hwatch : s.dstWatch ≠ none := hon.2.resolve_left hpc.not_copying
    rcases h.settled hfail ⟨hon.1, .inr hwatch⟩ g with hequal | hlive | hcome
    · exact .inl hequal
    · exact .inr (.inl hlive)
    · rw [hop] at hcome
      rcases hsettled g hcome hon.1 with hequal | hlive
      · exact .inl hequal
      · exact .inr (.inl hlive)
  · exact h.heard

/-- The operation has changed the file, and its event is under way. -/
theorem Files.ownChange (hb : Books s) (h : Files s) {d d' : Dir} {o : Op} {pc : Pc} {wd : Nat}
    {list : List Kind} (hd : s.dstDir = some d) (hop : s.pc = .op o) (hpc : pc.between)
    (hcome : ∀ g, (Pc.op o).toCome s.src g → g = name) (hwd : s.wdDst = some wd)
    (hother : ∀ g, g ≠ name → d'.lookup g = d.lookup g)
    (hgone : d'.lookup name = none ∨ name ∈ s.src)
    (hthis : d'.lookup name = s.src.lookup name ∨ s.LiveSrc s.pending name) :
    Files { s.setDst s.pathDst (some d') with
      queue := post Notice.same s.queue (.file wd kind name true), dropList := list, pc := pc } := by
  have hup := mounted_of_dirAt hd
  have hold : ∀ g, s.dstFile g = d.lookup g := by
    intro g
    unfold State.dstFile
    rw [hd]
    rfl
  have hnew : ∀ g, State.dstFile { s.setDst s.pathDst (some d') with
      queue := post Notice.same s.queue (.file wd kind name true), dropList := list, pc := pc } g =
      d'.lookup g := by
    intro g
    show ((s.setDst s.pathDst (some d')).dirAt s.pathDst).bind _ = _
    rw [dirAt_setDst hup]
    rfl
  have hmono : ∀ n ∈ s.pending, n ∈ s.batch ++ post Notice.same s.queue (.file wd kind name true) :=
    fun n hn => mem_posted hn
  constructor
  · intro wd' k g own pre suf hwd' hsplit
    rcases posted_split (s := s) (P := fun _ => True) trivial (fun _ _ _ => trivial) hsplit with
      ⟨suf', hsplit, hsub, -⟩ | hx
    · exact (h.srcTrue wd' k g own pre suf' hwd' hsplit).imp_right fun hlive => hlive.mono rfl hsub
    · obtain ⟨rfl, -, -, -⟩ := Notice.file.inj hx
      exact absurd hwd (hb.apart _ hwd')
  · intro wd' g pre suf hwd' halive hsplit
    rw [hnew]
    rcases posted_split (s := s) (P := fun _ => True) trivial (fun _ _ _ => trivial) hsplit with
      ⟨suf', hsplit, hsub, -⟩ | hx
    · by_cases hg : g = name
      · subst hg
        exact hgone.imp_right .inl
      · rcases h.dstTrue wd' g pre suf' hwd' halive hsplit with hnone | hmem | hlive
        · exact .inl (by rw [hother g hg, ← hold, hnone])
        · exact .inr (.inl hmem)
        · exact .inr (.inr (hlive.mono rfl rfl hsub))
    · exact absurd (Notice.file.inj hx).2.2.2 (by simp)
  · intro g hg
    exact absurd hg (hpc.ne_op _)
  · intro g hg
    exact absurd hg (hpc.ne_op _)
  · intro hfail hon g
    have hwatch : s.dstWatch ≠ none := hon.2.resolve_left hpc.not_copying
    by_cases hg : g = name
    · subst hg
      rcases hthis with hequal | hlive
      · exact .inl (by rw [hnew]; exact hequal)
      · exact .inr (.inl (.inl (hlive.mono rfl hmono)))
    · have hreach : s.dstDir ≠ none := by
        rw [hd]
        simp
      rcases h.settled hfail ⟨hreach, .inr hwatch⟩ g with hequal | hlive | hold'
      · exact .inl (by rw [hnew, hother g hg, ← hold]; exact hequal)
      · exact .inr (.inl (hlive.mono rfl rfl hmono))
      · rw [hop] at hold'
        exact absurd (hcome g hold') hg
  · exact h.heard

/-- An operation changes the destination, and expects its own event. -/
theorem Books.ownChange (h : Books s) {d' : Dir} {wd : Nat} (hwatch : s.dstWatch = some (wd, s.pathDst))
    (htail : s.queue.getLast? ≠ some (.file wd kind name true))
    (halone : ∀ name', .file wd kind name' false ∉ s.pending) :
    Books { s.setDst s.pathDst (some d') with
      queue := post Notice.same s.queue (.file wd kind name true),
      dropList := kind :: s.dropList } := by
  have hset := h.setDst s.pathDst d'
  refine hset.post_file (.inr ⟨(h.watched wd _ hwatch).1, ?_⟩) (fun _ => ⟨rfl, htail, halone⟩) ?_
  · show s.dstWatch ≠ none
    rw [hwatch]
    simp
  · intro hown
    exact absurd hown (by simp)

/-- The watch that the operation's event comes from. -/
theorem noticeDst_own {d' : Dir} {wd : Nat} (hwatch : s.dstWatch = some (wd, s.pathDst)) :
    (s.setDst s.pathDst (some d')).noticeDst s.pathDst kind name true =
      { s.setDst s.pathDst (some d') with
        queue := post Notice.same s.queue (.file wd kind name true) } := by
  obtain ⟨queue, heq, ⟨hnot, -⟩ | ⟨wd', hwatch', rfl⟩⟩ :=
    noticeDst_eq (s.setDst s.pathDst (some d')) s.pathDst kind name true
  · exact absurd hwatch (hnot wd)
  · obtain ⟨rfl, -⟩ := Prod.mk.inj (Option.some.inj (hwatch'.symm.trans hwatch))
    exact heq

/-- A file is copied. -/
theorem inv_copy (hinv : Inv s) (hop : s.pc = .op (.copy name))
    (horderly : name ∈ s.src → s.dstDir ≠ none → s.OwnEvent .closeWrite name) :
    Inv (s.operate (.copy name)) := by
  have hcome : ∀ g, (Pc.op (.copy name)).toCome s.src g → g = name := fun g h => h.symm
  unfold State.operate
  dsimp only
  split
  next data d hdata hd =>
    have hmem : name ∈ s.src := AList.lookup_isSome.mp (by rw [hdata]; rfl)
    obtain ⟨wd, hwatch, htail, halone⟩ := horderly hmem (by rw [hd]; simp)
    have hwd := (hinv.books.watched wd _ hwatch).1
    have hat : s.dirAt s.pathDst = some d := hd
    unfold State.writeDst
    rw [hat]
    dsimp only
    rw [noticeDst_own hwatch]
    refine ⟨(hinv.books.ownChange hwatch htail halone).endEvent, ?_⟩
    refine hinv.files.ownChange hinv.books hd hop (endEvent_between _) hcome hwd ?_ (.inr hmem) (.inl ?_)
    · intro g hg
      exact AList.lookup_insert_ne hg
    · rw [AList.lookup_insert, hdata]
  next hnot =>
    refine ⟨hinv.books.endEvent, hinv.files.endOp hop (endEvent_between s) ?_⟩
    intro g hg hreach
    obtain rfl := hcome g hg
    -- the file has gone in the meantime
    rcases hinv.files.opCopy g hop with hmem | hlive
    · obtain ⟨data, hdata⟩ := Option.isSome_iff_exists.mp (AList.lookup_isSome.mpr hmem)
      obtain ⟨d, hd⟩ := Option.ne_none_iff_exists'.mp hreach
      exact absurd hd (hnot data d hdata)
    · exact .inr (.inl hlive)

/-- A file is deleted. -/
theorem inv_delete (hinv : Inv s) (hop : s.pc = .op (.delete name))
    (horderly : s.dstFile name ≠ none → s.OwnEvent .delete name) :
    Inv (s.operate (.delete name)) := by
  have hcome : ∀ g, (Pc.op (.delete name)).toCome s.src g → g = name := fun g h => h.symm
  have hsrc : name ∉ s.src ∨ s.LiveSrc s.pending name := hinv.files.opDelete name hop
  unfold State.operate
  dsimp only
  split
  next hsome =>
    have hfile : s.dstFile name ≠ none := Option.isSome_iff_ne_none.mp hsome
    obtain ⟨wd, hwatch, htail, halone⟩ := horderly hfile
    have hwd := (hinv.books.watched wd _ hwatch).1
    obtain ⟨d, hd⟩ := Option.ne_none_iff_exists'.mp (hinv.books.watched wd _ hwatch).2.2
    have hat : s.dirAt s.pathDst = some d := hd
    have hin : name ∈ d := by
      unfold State.dstFile at hsome
      rw [hd] at hsome
      exact AList.lookup_isSome.mp hsome
    unfold State.deleteDst
    rw [hat]
    dsimp only
    rw [if_pos hin, noticeDst_own hwatch]
    refine ⟨(hinv.books.ownChange hwatch htail halone).endEvent, ?_⟩
    have hnone : (d.erase name).lookup name = none := AList.lookup_erase name d
    refine hinv.files.ownChange hinv.books hd hop (endEvent_between _) hcome hwd ?_ (.inl hnone) ?_
    · intro g hg
      exact AList.lookup_erase_ne hg
    · exact hsrc.imp_left fun hmem => by rw [hnone, AList.lookup_eq_none.mpr hmem]
  next hnot =>
    refine ⟨hinv.books.endEvent, hinv.files.endOp hop (endEvent_between s) ?_⟩
    intro g hg _
    obtain rfl := hcome g hg
    have hnone : s.dstFile g = none := by simpa using hnot
    rcases hsrc with hmem | hlive
    · exact .inl (by rw [hnone, AList.lookup_eq_none.mpr hmem])
    · exact .inr (.inl hlive)

end AndroidLearn.Ghost
