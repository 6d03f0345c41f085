import AndroidLearn.Ghost.Monitor

/-!
# The sync and the commands keep the invariant

`sync_src_and_dst` of `ghost.c` with its loops `restore_all_from_dst` and
`copy_all_to_dst`, the watches that are removed before it and added behind it, and the
commands `:mount:` and the connections that select the storage.

While the two directories are synced nothing tells of changes in the destination. A file
in which they differ is one that the loops have yet to come to, or, once the source is
watched again, one that an event of the source tells of (`State.Settled`). A loop has its
own lemma, on the names it has yet to come to (`inv_restore`, `inv_copyAll`), and one for
a directory that goes away in between (`inv_breakOff`).

`inv_next` is the next operation of whichever thread has `data_lock`.
-/

namespace AndroidLearn.Ghost

open Coalesce

variable {s s' : State} {name : String}

/-! ## Without watches -/

/-- Without watches, events and expectations the books are in order. -/
theorem Books.unwatched (hsrc : s.wdSrc = none) (hdst : s.wdDst = none) (hwatch : s.dstWatch = none)
    (hfresh : ∀ n ∈ s.pending, n.wd < s.nextWd)
    (hown : ∀ wd kind g, .file wd kind g true ∉ s.pending) (hlist : s.dropList = [])
    (hop : ∀ o, s.pc ≠ .op o) (hadd : s.pc ≠ .addDst) : Books s where
  fresh := hfresh
  freshSrc wd h := absurd (hsrc.symm.trans h) (by simp)
  freshDst wd h := absurd (hdst.symm.trans h) (by simp)
  apart wd h := absurd (hsrc.symm.trans h) (by simp)
  both h := absurd hdst h
  watched wd st h := absurd (hwatch.symm.trans h) (by simp)
  syncing _ := hdst
  operating o h := absurd h (hop o)
  adding h := absurd h hadd
  onList kind := by
    rw [hlist, List.count_nil, eq_comm, List.countP_eq_zero]
    intro n hn
    cases n with
    | file wd kind' g own =>
      cases own with
      | false => simp [Notice.isOwn]
      | true => exact absurd hn (hown wd kind' g)
    | ignored wd => simp [Notice.isOwn]
  ownDst wd kind g h := absurd h (hown wd kind g)
  srcKept wd h := absurd (hsrc.symm.trans h) (by simp)
  dead wd h := absurd (hdst.symm.trans h) (by simp)
  last wd pre suf h := absurd (hdst.symm.trans h) (by simp)
  inTurn wd kind g pre suf h := absurd (hdst.symm.trans h) (by simp)

/-- Removing the watch of the source leaves everything else as it is. -/
theorem removeSrcWatch_eq (hb : Books s) :
    ∃ queue, s.removeSrcWatch = { s with wdSrc := none, queue := queue } ∧
      ∀ m ∈ s.batch ++ queue, m ∈ s.pending ∨ ∃ wd, m = .ignored wd ∧ wd < s.nextWd := by
  unfold State.removeSrcWatch
  split
  next wd hwd =>
    refine ⟨_, rfl, fun m hm => ?_⟩
    exact (of_mem_posted hm).imp_right fun h => ⟨wd, h, hb.freshSrc wd hwd⟩
  next hnone =>
    refine ⟨s.queue, ?_, fun m hm => .inl hm⟩
    rw [← hnone]

theorem removeWatch_eq (hb : Books s) :
    ∃ queue, s.removeWatch =
        { s with wdSrc := none, wdDst := none, dstWatch := none, queue := queue } ∧
      ∀ m ∈ s.batch ++ queue, m ∈ s.pending ∨ ∃ wd, m = .ignored wd ∧ wd < s.nextWd := by
  obtain ⟨queue, heq, hqueue⟩ := removeSrcWatch_eq hb
  unfold State.removeWatch
  rw [heq]
  unfold State.removeDstWatch
  split
  next wd st hwatch =>
    refine ⟨_, rfl, fun m hm => ?_⟩
    rcases of_mem_posted (s := { s with wdSrc := none, queue := queue }) hm with hm | hm
    · exact hqueue m hm
    · exact .inr ⟨wd, hm, hb.freshDst wd (hb.watched wd st hwatch).1⟩
  next hnone =>
    refine ⟨queue, ?_, hqueue⟩
    have hnone : s.dstWatch = none := hnone
    rw [← hnone]

/-- The watches are removed while no event of the monitor's own is under way. -/
theorem Books.removeWatch (h : Books s) (hlist : s.dropList = []) {st : Storage} {pc : Pc} {main : Main}
    (hop : ∀ o, pc ≠ .op o) (hadd : pc ≠ .addDst) :
    Books { s.removeWatch with pathDst := st, pc := pc, main := main } := by
  obtain ⟨queue, heq, hqueue⟩ := removeWatch_eq h
  rw [heq]
  refine .unwatched rfl rfl rfl ?_ ?_ hlist hop hadd
  · intro m hm
    rcases hqueue m hm with hm | ⟨wd, rfl, hwd⟩
    · exact h.fresh m hm
    · exact hwd
  · intro wd kind g hm
    rcases hqueue _ hm with hm | ⟨wd', hne, -⟩
    · exact h.none_own hlist hm
    · exact absurd hne (by simp)

/-- A synchronisation begins. -/
theorem inv_startSync (hinv : Inv s) (hlist : s.dropList = []) (st : Storage) :
    Inv (s.startSync st) := by
  refine ⟨hinv.books.removeWatch hlist (fun _ => Pc.noConfusion) Pc.noConfusion, ?_⟩
  obtain ⟨queue, heq, -⟩ := removeWatch_eq hinv.books
  unfold State.startSync
  rw [heq]
  refine .unwatched rfl rfl (fun _ => Pc.noConfusion) ?_ hinv.files.heard ?_
  · intro wd kind g own pre suf hwd
    exact absurd hwd (by simp)
  · intro _ _ hcopying
    exact hcopying.elim

/-! ## The loops -/

/-- The sync is at another place. -/
theorem inv_setPc (hinv : Inv s) {pc : Pc} (hsync : s.pc.copying ∨ s.pc = .sync)
    (hop : ∀ o, pc ≠ .op o) (hadd : pc = .addDst → s.wdSrc ≠ none)
    (hsettled : s.failed = false → s.dstDir ≠ none → pc.copying → ∀ g,
      s.dstFile g = s.src.lookup g ∨ s.Live s.pending g ∨ pc.toCome s.src g) :
    Inv { s with pc := pc } := by
  have hdst := hinv.books.syncing hsync
  have hwatch : s.dstWatch = none := by
    by_contra hne
    obtain ⟨⟨wd, st⟩, hwatch⟩ := Option.ne_none_iff_exists'.mp hne
    have hwd := (hinv.books.watched wd st hwatch).1
    rw [hdst] at hwd
    exact absurd hwd (by simp)
  exact ⟨hinv.books.setPc hdst hop hadd,
    .unwatched hdst hwatch hop hinv.files.srcTrue hinv.files.heard hsettled⟩

/-- What is settled in a sync. -/
theorem Inv.settled_copying (hinv : Inv s) (hpc : s.pc.copying) (hfail : s.failed = false)
    (hreach : s.dstDir ≠ none) (g : String) :
    s.dstFile g = s.src.lookup g ∨ s.Live s.pending g ∨ s.pc.toCome s.src g :=
  hinv.files.settled hfail ⟨hreach, .inl hpc⟩ g

/-- It lists the files of the destination, if there is one. -/
theorem inv_sync (hinv : Inv s) (hpc : s.pc = .sync) : Inv (s.next name) := by
  unfold State.next
  rw [hpc]
  dsimp only
  split
  next d hd =>
    refine inv_setPc hinv (.inr hpc) (fun _ => Pc.noConfusion) (fun h => Pc.noConfusion h) ?_
    intro _ _ _ g
    by_cases hg : g ∈ d
    · exact .inr (.inr (.inl hg))
    · by_cases hsrc : g ∈ s.src
      · exact .inr (.inr (.inr hsrc))
      · refine .inl ?_
        unfold State.dstFile
        rw [hd, AList.lookup_eq_none.mpr hsrc]
        exact AList.lookup_eq_none.mpr hg
  next hnone =>
    refine inv_setPc hinv (.inr hpc) (fun _ => Pc.noConfusion) (fun h => Pc.noConfusion h) ?_
    intro _ hreach
    exact absurd hnone hreach

/-- The loop over the destination's files goes on behind one of them. -/
theorem inv_restoreFile (hinv : Inv s) {rest : List String} (hpc : s.pc = .restore rest) :
    Inv { s.restoreFile name with pc := .restore (rest.erase name) } := by
  have hcopying : s.pc.copying := by
    rw [hpc]
    trivial
  -- another file is as it was
  have hrest : ∀ {t : State}, Inv t → t.pc = s.pc → (t.dstFile name = t.src.lookup name ∨ name ∈ t.src) →
      Inv { t with pc := .restore (rest.erase name) } := by
    intro t ht htpc hthis
    refine inv_setPc ht (.inl (htpc ▸ hcopying)) (fun _ => Pc.noConfusion)
      (fun h => Pc.noConfusion h) ?_
    intro hfail hreach _ g
    by_cases hg : g = name
    · subst hg
      exact hthis.imp_right fun hmem => .inr (.inr hmem)
    · rcases ht.settled_copying (htpc ▸ hcopying) hfail hreach g with hequal | hlive | hcome
      · exact .inl hequal
      · exact .inr (.inl hlive)
      · rw [htpc, hpc] at hcome
        exact .inr (.inr (hcome.imp_left (List.mem_erase_of_ne hg).mpr))
  unfold State.restoreFile
  split
  next hmem => exact hrest hinv rfl (.inr hmem)
  next hmem =>
    split
    next data hdata =>
      have hin : name ∈ s.src.insert name data := (AList.mem_insert _).mpr (.inl rfl)
      have hwrite : Inv (s.writeSrc name data) := by
        refine ⟨hinv.books.changeSrc _ _ _, hinv.files.changeSrc hinv.books ?_ ?_ ?_⟩
        · intro g hg
          exact AList.lookup_insert_ne hg
        · exact ⟨fun h => Kind.noConfusion h, fun h => absurd hin h⟩
        · intro _ _
          obtain ⟨queue, heq, -⟩ := noticeSrc_eq { s with src := s.src.insert name data } .closeWrite name
          rw [heq]
          refine .inr (.inr ?_)
          show s.pc.toCome (s.src.insert name data) name
          rw [hpc]
          exact .inr hin
      have hwpc : (s.writeSrc name data).pc = s.pc := by
        obtain ⟨queue, heq, -⟩ := noticeSrc_eq { s with src := s.src.insert name data } .closeWrite name
        unfold State.writeSrc
        rw [heq]
      have hwsrc : (s.writeSrc name data).src = s.src.insert name data := by
        obtain ⟨queue, heq, -⟩ := noticeSrc_eq { s with src := s.src.insert name data } .closeWrite name
        unfold State.writeSrc
        rw [heq]
      exact hrest hwrite hwpc (.inr (by rw [hwsrc]; exact hin))
    next hnone => exact hrest hinv rfl (.inl (by rw [hnone, AList.lookup_eq_none.mpr hmem]))

/-- It goes through the files of the destination. -/
theorem inv_restore (hinv : Inv s) {rest : List String} (hpc : s.pc = .restore rest) :
    Inv (s.next name) := by
  have hcopying : s.pc.copying := by
    rw [hpc]
    trivial
  unfold State.next
  rw [hpc]
  dsimp only
  split
  next hnil =>
    refine inv_setPc hinv (.inl hcopying) (fun _ => Pc.noConfusion) (fun h => Pc.noConfusion h) ?_
    intro hfail hreach _ g
    rcases hinv.settled_copying hcopying hfail hreach g with hequal | hlive | hcome
    · exact .inl hequal
    · exact .inr (.inl hlive)
    · rw [hpc, hnil] at hcome
      rcases hcome with hmem | hmem
      · exact absurd hmem List.not_mem_nil
      · exact .inr (.inr hmem)
  next =>
    split
    next => exact inv_restoreFile hinv hpc
    next => exact hinv

theorem afterCopy_ne_op (created : Bool) (o : Op) : Pc.afterCopy created ≠ .op o := by
  cases created <;> exact Pc.noConfusion

theorem afterCopy_ne_addDst (created : Bool) : Pc.afterCopy created ≠ .addDst := by
  cases created <;> exact Pc.noConfusion

/-- No watch is left on a destination that is not watched. -/
theorem Inv.dstWatch_none (hinv : Inv s) (hdst : s.wdDst = none) : s.dstWatch = none := by
  by_contra hne
  obtain ⟨⟨wd, st⟩, hwatch⟩ := Option.ne_none_iff_exists'.mp hne
  have hwd := (hinv.books.watched wd st hwatch).1
  rw [hdst] at hwd
  exact absurd hwd (by simp)

/-- `copy_dir` breaks off. -/
theorem inv_breakOff (hinv : Inv s) (hcopying : s.pc.copying) (created : Bool) :
    Inv { s with failed := true, pc := .afterCopy created } := by
  have hdst := hinv.books.syncing (.inl hcopying)
  refine ⟨?_, .unwatched hdst (hinv.dstWatch_none hdst) (afterCopy_ne_op created)
    hinv.files.srcTrue hinv.files.heard fun hfail => absurd hfail (by simp)⟩
  exact hinv.books.same ⟨rfl, rfl, rfl, rfl, rfl, rfl, fun _ => ⟨rfl, id⟩⟩ (fun _ => hdst)
    (fun o ho => absurd ho (afterCopy_ne_op created o))
    fun hadd => absurd hadd (afterCopy_ne_addDst created)

/-- It copies one file. -/
theorem inv_copyFile (hinv : Inv s) {created : Bool} {rest : List String}
    (hpc : s.pc = .copyAll created rest) : Inv (s.copyFile created rest name) := by
  have hcopying : s.pc.copying := by
    rw [hpc]
    trivial
  have hdst := hinv.books.syncing (.inl hcopying)
  have hwatch := hinv.dstWatch_none hdst
  unfold State.copyFile
  split
  next data d hdata hd =>
    have hat : s.dirAt s.pathDst = some d := hd
    have hup := mounted_of_dirAt hat
    have hnotice : (s.setDst s.pathDst (some (d.insert name data))).noticeDst s.pathDst .closeWrite
        name true = s.setDst s.pathDst (some (d.insert name data)) := by
      unfold State.noticeDst
      split
      next wd st h => exact absurd (hwatch.symm.trans h) (by simp)
      next => rfl
    unfold State.writeDst
    rw [hat]
    dsimp only
    rw [hnotice]
    refine ⟨?_, .unwatched hdst hwatch (fun _ => Pc.noConfusion) hinv.files.srcTrue hinv.files.heard ?_⟩
    · exact (hinv.books.setDst s.pathDst _).setPc hdst (fun _ => Pc.noConfusion)
        fun h => Pc.noConfusion h
    · intro hfail _ _ g
      have hnew : ∀ g, (s.setDst s.pathDst (some (d.insert name data))).dstFile g =
          (d.insert name data).lookup g := by
        intro g
        show ((s.setDst s.pathDst (some (d.insert name data))).dirAt s.pathDst).bind _ = _
        rw [dirAt_setDst hup]
        rfl
      by_cases hg : g = name
      · subst hg
        have hthis : (d.insert g data).lookup g = s.src.lookup g := by
          rw [AList.lookup_insert, hdata]
        exact .inl ((hnew g).trans hthis)
      · rcases hinv.settled_copying hcopying hfail (by rw [hd]; simp) g with hequal | hlive | hcome
        · refine .inl ((hnew g).trans ?_)
          unfold State.dstFile at hequal
          rw [hd] at hequal
          rw [AList.lookup_insert_ne hg]
          exact hequal
        · exact .inr (.inl hlive)
        · rw [hpc] at hcome
          exact .inr (.inr ((List.mem_erase_of_ne hg).mpr hcome))
  next => exact inv_breakOff hinv hcopying created

/-- It copies the files one after the other. -/
theorem inv_copyAll (hinv : Inv s) {created : Bool} {rest : List String}
    (hpc : s.pc = .copyAll created rest) : Inv (s.next name) := by
  have hcopying : s.pc.copying := by
    rw [hpc]
    trivial
  unfold State.next
  rw [hpc]
  dsimp only
  split
  next hnil =>
    refine inv_setPc hinv (.inl hcopying) (afterCopy_ne_op created)
      (fun h => absurd h (afterCopy_ne_addDst created)) ?_
    intro hfail hreach _ g
    rcases hinv.settled_copying hcopying hfail hreach g with hequal | hlive | hcome
    · exact .inl hequal
    · exact .inr (.inl hlive)
    · rw [hpc, hnil] at hcome
      exact absurd hcome List.not_mem_nil
  next =>
    split
    next => exact inv_copyFile hinv hpc
    next => exact hinv

/-! ## The watches -/

/-- It makes the directory of the destination, if there is none. -/
theorem inv_addWatch (hinv : Inv s) (hpc : s.pc = .addWatch) : Inv (s.next name) := by
  have hcopying : s.pc.copying := by
    rw [hpc]
    trivial
  have hdst := hinv.books.syncing (.inl hcopying)
  unfold State.next
  rw [hpc]
  dsimp only
  split
  next hmissing =>
    have hbooks : Books { s.removeWatch with pathDst := s.pathDst, pc := .addWatch, main := s.main } :=
      hinv.books.removeWatch (hinv.books.list_empty hdst) (fun _ => Pc.noConfusion) Pc.noConfusion
    obtain ⟨queue, heq, -⟩ := removeWatch_eq hinv.books
    rw [heq] at hbooks ⊢
    refine ⟨?_, .unwatched rfl rfl (fun _ => Pc.noConfusion) ?_ hinv.files.heard ?_⟩
    · exact (hbooks.setDst s.pathDst ∅).setPc rfl (fun _ => Pc.noConfusion) fun h => Pc.noConfusion h
    · intro wd kind g own pre suf hwd
      exact absurd hwd (by simp [State.setDst])
    · intro _ _ _ g
      exact settled_created
        { s with wdSrc := none, wdDst := none, dstWatch := none, queue := queue } true hmissing.1 g
  next =>
    refine inv_setPc hinv (.inl hcopying) (fun _ => Pc.noConfusion) (fun h => Pc.noConfusion h) ?_
    intro hfail hreach _ g
    exact (hinv.settled_copying hcopying hfail hreach g).imp_right fun h => h.imp_right fun hcome => by
      rw [hpc] at hcome
      exact hcome.elim

/-- No event is under way from a watch that is not yet there. -/
theorem Books.not_next (h : Books s) {n : Notice} (hwd : n.wd = s.nextWd) : n ∉ s.pending := by
  intro hmem
  have hlt := h.fresh n hmem
  omega

/-- It watches the source, if it does not yet. -/
theorem inv_addSrc (hinv : Inv s) (hpc : s.pc = .addSrc) : Inv (s.next name) := by
  have hcopying : s.pc.copying := by
    rw [hpc]
    trivial
  have hdst := hinv.books.syncing (.inl hcopying)
  have hwatch := hinv.dstWatch_none hdst
  unfold State.next
  rw [hpc]
  dsimp only
  split
  next wd hwd =>
    refine inv_setPc hinv (.inl hcopying) (fun _ => Pc.noConfusion) (fun _ => by rw [hwd]; simp) ?_
    intro hfail hreach _ g
    exact (hinv.settled_copying hcopying hfail hreach g).imp_right fun h => h.imp_right fun hcome => by
      rw [hpc] at hcome
      exact hcome.elim
  next hnone =>
    have hb := hinv.books
    refine ⟨⟨?_, ?_, ?_, ?_, ?_, ?_, ?_, ?_, ?_, ?_, ?_, ?_, ?_, ?_, ?_⟩, ?_⟩
    · intro n hn
      exact Nat.lt_succ_of_lt (hb.fresh n hn)
    · intro wd hwd
      obtain rfl := Option.some.inj hwd
      exact Nat.lt_succ_self _
    · intro wd hwd
      exact absurd (hdst.symm.trans hwd) (by simp)
    · intro wd _ hwd
      exact absurd (hdst.symm.trans hwd) (by simp)
    · intro _
      simp
    · intro wd st hst
      exact absurd (hwatch.symm.trans hst) (by simp)
    · intro _
      exact hdst
    · intro o ho
      exact absurd ho (by simp)
    · intro _
      simp
    · exact hb.onList
    · exact hb.ownDst
    · intro wd hwd
      obtain rfl := Option.some.inj hwd
      exact hb.not_next rfl
    · intro wd hwd
      exact absurd (hdst.symm.trans hwd) (by simp)
    · intro wd pre suf hwd
      exact absurd (hdst.symm.trans hwd) (by simp)
    · intro wd kind g pre suf hwd
      exact absurd (hdst.symm.trans hwd) (by simp)
    · refine .unwatched hdst hwatch (fun _ => Pc.noConfusion) ?_ hinv.files.heard ?_
      · intro wd kind g own pre suf hwd hsplit
        obtain rfl := Option.some.inj hwd
        have hmem : .file s.nextWd kind g own ∈ s.pending := by
          rw [show s.pending = _ from hsplit]
          simp
        exact absurd hmem (hb.not_next rfl)
      · intro hfail hreach _ g
        rcases hinv.settled_copying hcopying hfail hreach g with hequal | hlive | hcome
        · exact .inl hequal
        · rcases hlive with ⟨wd, kind, own, hwd, -⟩ | ⟨wd, kind, hwd, -⟩
          · exact absurd (hnone.symm.trans hwd) (by simp)
          · exact absurd (hdst.symm.trans hwd) (by simp)
        · rw [hpc] at hcome
          exact hcome.elim

/-- It ends, and the one who waits goes on. -/
theorem release_eq (s : State) :
    ∃ pc main, pc.between ∧ s.release = { s with pc := pc, main := main } := by
  unfold State.release
  split
  · exact ⟨.idle, .free, .inl rfl, rfl⟩
  · exact ⟨_, s.main, endEvent_between s, rfl⟩

/-- The destination is watched again. -/
theorem Books.addDst (hb : Books s) (hpc : s.pc = .addDst) (hdst : s.wdDst = none)
    (hreach : s.dstDir ≠ none) {pc : Pc} {main : Main} (hbetween : pc.between) :
    Books { s with
      wdDst := some s.nextWd
      dstWatch := some (s.nextWd, s.pathDst)
      nextWd := s.nextWd + 1
      pc := pc
      main := main } where
  fresh n hn := Nat.lt_succ_of_lt (hb.fresh n hn)
  freshSrc wd hwd := Nat.lt_succ_of_lt (hb.freshSrc wd hwd)
  freshDst wd hwd := by
    obtain rfl := Option.some.inj hwd
    exact Nat.lt_succ_self _
  apart wd hwd hwd' := by
    obtain rfl := Option.some.inj hwd'
    exact absurd (hb.freshSrc _ hwd) (Nat.lt_irrefl _)
  both _ := hb.adding hpc
  watched wd st hst := by
    obtain ⟨rfl, rfl⟩ := Prod.mk.inj (Option.some.inj hst)
    exact ⟨rfl, rfl, hreach⟩
  syncing := by
    rintro (h | h)
    · exact absurd h hbetween.not_copying
    · have h : pc = .sync := h
      rw [h] at hbetween
      rcases hbetween with h | h <;> exact Pc.noConfusion h
  operating o ho := absurd ho (hbetween.ne_op o)
  adding _ := hb.adding hpc
  onList := hb.onList
  ownDst wd kind g hm := by
    have hwd := hb.ownDst wd kind g hm
    exact absurd (hdst.symm.trans hwd) (by simp)
  srcKept := hb.srcKept
  dead wd hwd := by
    obtain rfl := Option.some.inj hwd
    exact ⟨fun h => absurd h (by simp), fun h => absurd h (hb.not_next rfl)⟩
  last wd pre suf hwd hsplit := by
    obtain rfl := Option.some.inj hwd
    have hmem : .ignored s.nextWd ∈ s.pending := by
      rw [show s.pending = _ from hsplit]
      simp
    exact absurd hmem (hb.not_next rfl)
  inTurn wd kind g pre suf hwd hsplit := by
    obtain rfl := Option.some.inj hwd
    have hmem : .file s.nextWd kind g false ∈ s.pending := by
      rw [show s.pending = _ from hsplit]
      simp
    exact absurd hmem (hb.not_next rfl)

/-- Then it is the source's copy, or an event of the source tells of the difference. -/
theorem Files.addDst (hinv : Inv s) (hpc : s.pc = .addDst) (hdst : s.wdDst = none)
    {pc : Pc} {main : Main} (hbetween : pc.between) :
    Files { s with
      wdDst := some s.nextWd
      dstWatch := some (s.nextWd, s.pathDst)
      nextWd := s.nextWd + 1
      pc := pc
      main := main } where
  srcTrue := hinv.files.srcTrue
  dstTrue wd g pre suf hwd _ hsplit := by
    obtain rfl := Option.some.inj hwd
    have hmem : .file s.nextWd .delete g false ∈ s.pending := by
      rw [show s.pending = _ from hsplit]
      simp
    exact absurd hmem (hinv.books.not_next rfl)
  opCopy g hg := absurd hg (hbetween.ne_op _)
  opDelete g hg := absurd hg (hbetween.ne_op _)
  settled hfail hon g := by
    have hcopying : s.pc.copying := by
      rw [hpc]
      trivial
    rcases hinv.settled_copying hcopying hfail hon.1 g with hequal | hlive | hcome
    · exact .inl hequal
    · rcases hlive with hlive | ⟨wd, kind, hwd, -⟩
      · exact .inr (.inl (.inl hlive))
      · exact absurd (hdst.symm.trans hwd) (by simp)
    · rw [hpc] at hcome
      exact hcome.elim
  heard := hinv.files.heard

/-- It watches the destination. -/
theorem inv_addDst (hinv : Inv s) (hpc : s.pc = .addDst) : Inv (s.next name) := by
  have hb := hinv.books
  have hcopying : s.pc.copying := by
    rw [hpc]
    trivial
  have hdst := hb.syncing (.inl hcopying)
  unfold State.next
  rw [hpc]
  dsimp only
  split
  next d hd =>
    have hreach : s.dstDir ≠ none := by
      rw [hd]
      simp
    obtain ⟨pc, main, hbetween, heq⟩ := release_eq { s with
      wdDst := some s.nextWd
      dstWatch := some (s.nextWd, s.pathDst)
      nextWd := s.nextWd + 1
      pc := .addDst }
    rw [heq]
    exact ⟨hb.addDst hpc hdst hreach hbetween, .addDst hinv hpc hdst hbetween⟩
  next hnone =>
    obtain ⟨pc, main, hbetween, heq⟩ := release_eq { s with wdDst := none, pc := .addDst }
    rw [heq]
    refine ⟨?_, .unwatched rfl (hinv.dstWatch_none hdst) hbetween.ne_op hinv.files.srcTrue
      hinv.files.heard ?_⟩
    · refine hb.same ⟨rfl, rfl, hdst.symm, rfl, rfl, rfl, fun _ => ⟨rfl, id⟩⟩ (fun _ => hdst)
        (fun o ho => absurd ho (hbetween.ne_op o)) ?_
      intro hadd
      have hadd : pc = .addDst := hadd
      rw [hadd] at hbetween
      rcases hbetween with h | h <;> exact Pc.noConfusion h
    · intro _ _ h
      exact absurd h hbetween.not_copying

/-- Every step of the mirror keeps the invariant, if it is orderly. -/
theorem inv_next (hinv : Inv s) (horderly : Orderly s (.next name)) : Inv (s.next name) := by
  cases hpc : s.pc with
  | idle =>
    unfold State.next
    rw [hpc]
    exact hinv
  | events =>
    unfold State.next
    rw [hpc]
    exact hinv
  | op o =>
    unfold Orderly at horderly
    rw [hpc] at horderly
    unfold State.next
    rw [hpc]
    cases o with
    | copy g => exact inv_copy hinv hpc horderly
    | delete g => exact inv_delete hinv hpc horderly
  | sync => exact inv_sync hinv hpc
  | restore rest => exact inv_restore hinv hpc
  | copyAll created rest => exact inv_copyAll hinv hpc
  | addWatch => exact inv_addWatch hinv hpc
  | addSrc => exact inv_addSrc hinv hpc
  | addDst => exact inv_addDst hinv hpc

end AndroidLearn.Ghost
