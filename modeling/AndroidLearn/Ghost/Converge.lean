import AndroidLearn.Ghost.Sync
import AndroidLearn.Lib.Run

/-!
# The mirror converges in orderly runs

The steps of `Ghost.Mirror` together. An event is passed over by its kind alone, a watch
is removed whatever is under way from it, the kernel merges events, and a new connection
sets `path_dst` again. Where none of this hits, the mirror of `ghost.c` is what it is for
in every state of the run.

Theorem: `converged_run`, for every content of the directories at the start and every run
whose steps are `Orderly`. `Inv.step` has a case for each event, and the run is the
induction of `Lib.Run`. In `converged_run_mirrored` a file is written after the first
sync, copied, and the event of the copy passed over.

A file written in the destination just before another one is mirrored is enough to break
it (`converged_fails_kind`): the event is passed over in place of the monitor's own.
-/

namespace AndroidLearn.Ghost

open Coalesce Run

variable {s s' : State} {name : String}

/-! ## Changes by others -/

/-- A write to the source is noticed by the watch. -/
theorem inv_writeSrc (hinv : Inv s) {data : List UInt8}
    (horderly : s.Noticed (s.writeSrc name data) name) : Inv (s.writeSrc name data) := by
  refine ⟨hinv.books.changeSrc _ _ _, hinv.files.changeSrc hinv.books ?_ ?_ horderly⟩
  · intro g hg
    exact AList.lookup_insert_ne hg
  · have hin : name ∈ s.src.insert name data := (AList.mem_insert _).mpr (.inl rfl)
    exact ⟨fun h => Kind.noConfusion h, fun h => absurd hin h⟩

theorem inv_deleteSrc (hinv : Inv s) (horderly : s.Noticed (s.deleteSrc name) name) :
    Inv (s.deleteSrc name) := by
  unfold State.deleteSrc at horderly ⊢
  split
  next hmem =>
    rw [if_pos hmem] at horderly
    refine ⟨hinv.books.changeSrc _ _ _, hinv.files.changeSrc hinv.books ?_ ?_ horderly⟩
    · intro g hg
      exact AList.lookup_erase_ne hg
    · exact ⟨fun _ h => (AList.mem_erase.mp h).1 rfl, fun _ => rfl⟩
  next => exact hinv

theorem inv_writeDst (hinv : Inv s) {st : Storage} {data : List UInt8}
    (hmerge : s.NotMerged st .closeWrite name)
    (hnoticed : st = s.pathDst → s.Noticed (s.writeDst st name data false) name) :
    Inv (s.writeDst st name data false) := by
  unfold State.writeDst at hnoticed ⊢
  split
  next d hd =>
    rw [hd] at hnoticed
    refine ⟨hinv.books.changeDst _ _ _ _, ?_⟩
    by_cases hst : st = s.pathDst
    · subst hst
      refine hinv.files.changeDst hinv.books hd ?_ (fun h => Kind.noConfusion h) hmerge (hnoticed rfl)
      intro g hg
      exact AList.lookup_insert_ne hg
    · exact hinv.files.changeOther hinv.books hst _ _ _
  next => exact hinv

theorem inv_deleteDst (hinv : Inv s) {st : Storage} (hmerge : s.NotMerged st .delete name)
    (hnoticed : st = s.pathDst → s.Noticed (s.deleteDst st name false) name) :
    Inv (s.deleteDst st name false) := by
  unfold State.deleteDst at hnoticed ⊢
  split
  next d hd =>
    rw [hd] at hnoticed
    dsimp only at hnoticed
    split
    next hmem =>
      rw [if_pos hmem] at hnoticed
      refine ⟨hinv.books.changeDst _ _ _ _, ?_⟩
      by_cases hst : st = s.pathDst
      · subst hst
        refine hinv.files.changeDst hinv.books hd ?_ (fun _ => AList.lookup_erase name d) hmerge
          (hnoticed rfl)
        intro g hg
        exact AList.lookup_erase_ne hg
      · exact hinv.files.changeOther hinv.books hst _ _ _
    next => exact hinv
  next => exact hinv

/-! ## Storages -/

theorem Inv.reach_of_watch (hinv : Inv s) (hwatch : s.dstWatch ≠ none) : s.dstDir ≠ none := by
  obtain ⟨⟨wd, st⟩, hsome⟩ := Option.ne_none_iff_exists'.mp hwatch
  exact (hinv.books.watched wd st hsome).2.2

/-- Where the destination is not watched, only a sync looks at it. -/
theorem Inv.notWatched (hinv : Inv s) (hwatch : s.dstWatch = none) {mounted : Storage → Bool}
    {dst : Storage → Option Dir} {pathDst : Storage}
    (hsettled : s.failed = false → State.dstDir { s with mounted, dst, pathDst } ≠ none →
      s.pc.copying → ∀ g, State.Settled { s with mounted, dst, pathDst } g) :
    Inv { s with mounted, dst, pathDst } where
  books := hinv.books.same_pc ⟨rfl, rfl, rfl, rfl, rfl, rfl, fun h => absurd hwatch h⟩ rfl
  files :=
    { srcTrue := hinv.files.srcTrue
      dstTrue := fun _ _ _ _ _ h => absurd hwatch h
      opCopy := hinv.files.opCopy
      opDelete := hinv.files.opDelete
      settled := fun hfail hon => hsettled hfail hon.1 (hon.2.resolve_right fun h => h hwatch)
      heard := hinv.files.heard }

/-- Another storage than the destination's. -/
theorem Inv.otherStorage (hinv : Inv s) {mounted : Storage → Bool} {dst : Storage → Option Dir}
    (hdir : State.dstDir { s with mounted, dst } = s.dstDir) : Inv { s with mounted, dst } where
  books := hinv.books.same_pc ⟨rfl, rfl, rfl, rfl, rfl, rfl, fun _ => ⟨rfl, fun h => hdir ▸ h⟩⟩ rfl
  files := hinv.files.same ⟨rfl, rfl, rfl, rfl, rfl, hdir, rfl, rfl, rfl⟩

/-- A storage may be mounted. -/
theorem inv_attach (hinv : Inv s) {st : Storage} {d : Option Dir}
    (horderly : st = s.pathDst → ∀ g, s.Noticed (s.attach st d) g) : Inv (s.attach st d) := by
  unfold State.attach at horderly ⊢
  split
  next => exact hinv
  next hdown =>
    rw [if_neg hdown] at horderly
    by_cases hst : st = s.pathDst
    · have hwatch : s.dstWatch = none := by
        by_contra hne
        obtain ⟨d₀, hd₀⟩ := Option.ne_none_iff_exists'.mp (hinv.reach_of_watch hne)
        have hd₀ : s.dirAt s.pathDst = some d₀ := hd₀
        exact hdown (hst ▸ mounted_of_dirAt hd₀)
      exact hinv.notWatched hwatch fun _ hreach hcopying g => horderly hst g hcopying hreach
    · refine hinv.otherStorage ?_
      show (if Function.update s.mounted st true s.pathDst then
        Function.update s.dst st d s.pathDst else none) = _
      rw [Function.update_of_ne (Ne.symm hst), Function.update_of_ne (Ne.symm hst)]
      rfl

/-- An unmounted storage has no directory. -/
theorem dirAt_detached (s : State) (st : Storage) :
    State.dirAt { s with mounted := Function.update s.mounted st false } st = none := by
  refine if_neg ?_
  dsimp only
  rw [Function.update_self]
  exact Bool.false_ne_true

/-- The `IN_IGNORED` of a watch that is alive is the last event. -/
theorem pending_ignored {wd : Nat} (halive : .ignored wd ∉ s.pending) :
    s.batch ++ post Notice.same s.queue (.ignored wd) = s.pending ++ [.ignored wd] := by
  obtain ⟨more, heq, rfl | ⟨-, m, -, hlast, hsame⟩⟩ := posted s (.ignored wd)
  · exact heq
  · cases m with
    | file wd' kind g own => exact absurd hsame Bool.false_ne_true
    | ignored wd' =>
      have hwd' : wd' = wd := by simpa [Notice.same] using hsame
      exact absurd (hwd' ▸ List.mem_of_getLast? hlast) halive

/-- The watch of the destination ends with its storage. -/
theorem Books.detachWatched (hb : Books s) {wd : Nat} (hwd : s.wdDst = some wd)
    (halive : .ignored wd ∉ s.pending) :
    Books { s with
      mounted := Function.update s.mounted s.pathDst false
      dstWatch := none
      queue := post Notice.same s.queue (.ignored wd) } where
  fresh n hn := by
    rcases of_mem_posted (s := s) hn with hn | rfl
    · exact hb.fresh n hn
    · exact hb.freshDst wd hwd
  freshSrc := hb.freshSrc
  freshDst := hb.freshDst
  apart := hb.apart
  both := hb.both
  watched wd' st hst := absurd hst (by simp)
  syncing := hb.syncing
  operating := hb.operating
  adding := hb.adding
  onList kind := by
    show s.dropList.count kind = (s.batch ++ post Notice.same s.queue (.ignored wd)).countP _
    rw [pending_ignored halive, List.countP_append, hb.onList kind]
    rfl
  ownDst wd' kind g hn := by
    rcases of_mem_posted (s := s) hn with hn | hn
    · exact hb.ownDst wd' kind g hn
    · exact absurd hn (by simp)
  srcKept wd' hwd' hn := by
    rcases of_mem_posted (s := s) hn with hn | hn
    · exact hb.srcKept wd' hwd' hn
    · obtain rfl := Notice.ignored.inj hn
      exact hb.apart _ hwd' hwd
  dead wd' hwd' := by
    obtain rfl := Option.some.inj (hwd.symm.trans hwd')
    refine ⟨fun _ => ?_, fun _ => rfl⟩
    show _ ∈ s.batch ++ post Notice.same s.queue (.ignored wd)
    rw [pending_ignored halive]
    simp
  last wd' pre suf hwd' hsplit := by
    obtain rfl := Option.some.inj (hwd.symm.trans hwd')
    have hsplit : s.batch ++ post Notice.same s.queue (.ignored wd) = _ := hsplit
    rw [pending_ignored halive] at hsplit
    rcases split_append_singleton hsplit with ⟨suf', rfl, hold⟩ | ⟨-, rfl, -⟩
    · exact absurd (by rw [hold]; simp) halive
    · exact List.forall_mem_nil _
  inTurn wd' kind g pre suf hwd' hsplit := by
    have hsplit : s.batch ++ post Notice.same s.queue (.ignored wd) = _ := hsplit
    rw [pending_ignored halive] at hsplit
    rcases split_append_singleton hsplit with ⟨suf', rfl, hold⟩ | ⟨hne, -, -⟩
    · intro n hn
      rcases List.mem_append.mp hn with hn | hn
      · exact hb.inTurn wd' kind g pre suf' hwd' hold n hn
      · obtain rfl := List.mem_singleton.mp hn
        rfl
    · exact absurd hne (by simp)

/-- With its storage the watch goes, and this is noticed. -/
theorem Files.detachWatched (h : Files s) {wd : Nat} (halive : .ignored wd ∉ s.pending) :
    Files { s with
      mounted := Function.update s.mounted s.pathDst false
      dstWatch := none
      queue := post Notice.same s.queue (.ignored wd) } where
  srcTrue wd' kind g own pre suf hwd' hsplit := by
    have hsplit : s.batch ++ post Notice.same s.queue (.ignored wd) = _ := hsplit
    rw [pending_ignored halive] at hsplit
    rcases split_append_singleton hsplit with ⟨suf', rfl, hold⟩ | ⟨hxn, -, -⟩
    · exact (h.srcTrue wd' kind g own pre suf' hwd' hold).imp_right fun h =>
        h.mono rfl fun m hm => List.mem_append_left _ hm
    · exact absurd hxn (by simp)
  dstTrue wd' g pre suf _ halive' := absurd rfl halive'
  opCopy g hop := (h.opCopy g hop).imp_right fun h => h.mono rfl fun _ hm => mem_posted hm
  opDelete g hop := (h.opDelete g hop).imp_right fun h => h.mono rfl fun _ hm => mem_posted hm
  settled := by
    rintro - ⟨hreach, -⟩
    exact absurd (dirAt_detached s s.pathDst) hreach
  heard := h.heard

/-- The destination's storage goes, and its watch says so. -/
theorem inv_detachWatched (hinv : Inv s) {wd : Nat} (hwatch : s.dstWatch = some (wd, s.pathDst)) :
    Inv { s with
      mounted := Function.update s.mounted s.pathDst false
      dstWatch := none
      queue := post Notice.same s.queue (.ignored wd) } := by
  have hwd := (hinv.books.watched wd _ hwatch).1
  have halive : .ignored wd ∉ s.pending := by
    intro hmem
    have hnone := (hinv.books.dead wd hwd).mpr hmem
    exact absurd (hnone.symm.trans hwatch) (by simp)
  exact ⟨hinv.books.detachWatched hwd halive, hinv.files.detachWatched halive⟩

/-- A storage may be unmounted. -/
theorem inv_detach (hinv : Inv s) (st : Storage) : Inv (s.detach st) := by
  have hother : st ≠ s.pathDst →
      Inv { s with mounted := Function.update s.mounted st false } := by
    intro hst
    refine hinv.otherStorage ?_
    show (if Function.update s.mounted st false s.pathDst then s.dst s.pathDst else none) = _
    rw [Function.update_of_ne (Ne.symm hst)]
    rfl
  unfold State.detach
  dsimp only
  split
  next wd watched hwatch =>
    obtain ⟨-, rfl, -⟩ := hinv.books.watched wd watched hwatch
    split
    next hst =>
      obtain rfl := hst
      exact inv_detachWatched hinv hwatch
    next hst => exact hother (Ne.symm hst)
  next hwatch =>
    by_cases hst : st = s.pathDst
    · subst hst
      refine hinv.notWatched hwatch fun _ hreach => ?_
      exact absurd (dirAt_detached s s.pathDst) hreach
    · exact hother hst

/-! ## Runs -/

theorem Inv.setMain (hinv : Inv s) (main : Main) : Inv { s with main := main } where
  books := hinv.books.same_pc ⟨rfl, rfl, rfl, rfl, rfl, rfl, fun _ => ⟨rfl, id⟩⟩ rfl
  files := hinv.files.same ⟨rfl, rfl, rfl, rfl, rfl, rfl, rfl, rfl, rfl⟩

/-- The monitor reads as many events as it gets. -/
theorem inv_read (hinv : Inv s) (hbatch : s.batch = []) (count : Nat) :
    Inv { s with batch := s.queue.take (count + 1), queue := s.queue.drop (count + 1) } := by
  have hpending : s.queue.take (count + 1) ++ s.queue.drop (count + 1) = s.pending := by
    unfold State.pending
    rw [List.take_append_drop, hbatch, List.nil_append]
  exact ⟨hinv.books.same_pc ⟨hpending, rfl, rfl, rfl, rfl, rfl, fun _ => ⟨rfl, id⟩⟩ rfl,
    hinv.files.same ⟨hpending, rfl, rfl, rfl, rfl, rfl, rfl, rfl, rfl⟩⟩

/-- Every event keeps the invariant, if the changes are orderly. -/
theorem Inv.step (hinv : Inv s) {e : Event} (horderly : Orderly s e) : Inv (s.step e) := by
  cases e with
  | write place name data =>
    cases place with
    | src => exact inv_writeSrc hinv horderly
    | dst st => exact inv_writeDst hinv horderly.1 horderly.2
  | delete place name =>
    cases place with
    | src => exact inv_deleteSrc hinv horderly
    | dst st => exact inv_deleteDst hinv horderly.1 horderly.2
  | attach st d => exact inv_attach hinv horderly
  | detach st => exact inv_detach hinv st
  | connect =>
    unfold State.step
    dsimp only
    split
    next hfree =>
      rcases horderly hfree with hsame | ⟨hwatch, hcopying⟩
      · rw [hsame]
        exact hinv
      · exact hinv.notWatched hwatch
          fun _ _ h => absurd h hcopying
    next => exact hinv
  | mount st mount =>
    unfold State.step State.mount
    dsimp only
    split
    · split
      · split
        · exact hinv.setMain _
        · exact hinv
      · exact hinv
    · exact hinv
  | lock =>
    unfold State.step
    dsimp only
    split
    next st hmain =>
      split
      next hpc => exact inv_startSync hinv (horderly st hmain hpc) st
      next => exact hinv
    next => exact hinv
  | read count =>
    unfold State.step
    dsimp only
    split
    next h => exact inv_read hinv h.1 count
    next => exact hinv
  | handle =>
    unfold State.step
    dsimp only
    split
    next hpc => exact inv_handle hinv hpc
    next => exact hinv
  | next name => exact inv_next hinv horderly

/-- The mirror at rest. -/
theorem Inv.converged (hinv : Inv s) : Converged s where
  rest := by
    intro _ _ hdst hqueue hbatch hpc hfail
    have hpending : s.pending = [] := by
      unfold State.pending
      rw [hbatch, hqueue, List.append_nil]
    obtain ⟨wd, hwd⟩ := Option.ne_none_iff_exists'.mp hdst
    have hwatch : s.dstWatch ≠ none := by
      intro hnone
      have hmem := (hinv.books.dead wd hwd).mp hnone
      rw [hpending] at hmem
      exact absurd hmem List.not_mem_nil
    refine ⟨?_, fun name => ?_⟩
    · refine List.eq_nil_iff_forall_not_mem.mpr fun kind hmem => ?_
      have hpos := List.count_pos_iff.mpr hmem
      rw [hinv.books.onList kind, hpending] at hpos
      exact absurd hpos (Nat.lt_irrefl 0)
    · rcases hinv.files.settled hfail ⟨hinv.reach_of_watch hwatch, .inr hwatch⟩ name with
        hequal | hlive | hcome
      · exact hequal
      · rw [hpending] at hlive
        rcases hlive with ⟨_, _, _, -, hmem⟩ | ⟨_, _, -, hmem⟩ <;>
          exact absurd hmem List.not_mem_nil
      · rw [hpc] at hcome
        exact hcome.elim
  heard := hinv.files.heard

/-- In every run whose steps are orderly the mirror converges. -/
theorem converged_run (src : Dir) (dst : Storage → Option Dir) (mounted : Storage → Bool)
    (events : List Event) (h : AllSteps State.step Orderly (.init src dst mounted) events) :
    Converged ((State.init src dst mounted).run events) :=
  (AllSteps.invariant (fun _ _ hinv horderly => hinv.step horderly) (inv_init src dst mounted) h).converged

/-! ## Two runs -/

/-- A step of the mirror that changes no file is orderly. -/
theorem orderly_next (pc : Pc) (hpc : s.pc = pc) (hop : ∀ o, pc ≠ .op o) : Orderly s (.next name) := by
  dsimp only [Orderly]
  rw [hpc]
  split
  next => exact absurd rfl (hop _)
  next => exact absurd rfl (hop _)
  next => trivial

/-- `/sdcard` is mounted, with an empty `ghost` directory, and the source has a file. -/
def start : State := .init (AList.singleton "a" [1]) (fun _ => some ∅) fun st => st = .ext

/-- The first sync copies it. -/
def firstSync : List Event := List.replicate 7 (.next "a")

/-- Then someone writes the file again in the source, and the monitor copies it. -/
def mirrored : List Event :=
  firstSync ++ [.write .src "a" [2], .read 0, .handle, .next "", .read 0, .handle]

/-- What happens while the mirror is idle is noticed. -/
theorem noticed_of_idle {s' : State} (hpc : s.pc = .idle) : s.Noticed s' name := by
  unfold State.Noticed
  rw [hpc]
  exact False.elim

/-- Nothing is on its way when the monitor copies `a`. -/
theorem orderly_copy (name : String) (wd : Nat) (hpc : s.pc = .op (.copy name))
    (hwatch : s.dstWatch = some (wd, s.pathDst)) (hpending : s.pending = []) :
    Orderly s (.next "") := by
  dsimp only [Orderly]
  rw [hpc]
  intro _ _
  have hqueue : s.queue = [] := (List.append_eq_nil_iff.mp hpending).2
  refine ⟨wd, hwatch, ?_, fun name' => ?_⟩
  · rw [hqueue]
    simp
  · rw [hpending]
    exact List.not_mem_nil

theorem converged_run_mirrored : Converged (start.run mirrored) := by
  refine converged_run _ _ _ mirrored ⟨?_, ?_, ?_, ?_, ?_, ?_, ?_, ?_, trivial, trivial, ?_, trivial,
    trivial, trivial⟩
  · exact orderly_next .sync (by decide +kernel) fun _ => Pc.noConfusion
  · exact orderly_next (.restore []) (by decide +kernel) fun _ => Pc.noConfusion
  · exact orderly_next (.copyAll false ["a"]) (by decide +kernel) fun _ => Pc.noConfusion
  · exact orderly_next (.copyAll false []) (by decide +kernel) fun _ => Pc.noConfusion
  · exact orderly_next .addWatch (by decide +kernel) fun _ => Pc.noConfusion
  · exact orderly_next .addSrc (by decide +kernel) fun _ => Pc.noConfusion
  · exact orderly_next .addDst (by decide +kernel) fun _ => Pc.noConfusion
  · exact noticed_of_idle (by decide +kernel)
  · exact orderly_copy "a" 2 (by decide +kernel) (by decide +kernel) (by decide +kernel)

/-- Someone writes `b` in the destination after `a` was written in the source and
before the monitor has copied it. -/
def sameKind : List Event :=
  firstSync ++ [.write .src "a" [2], .write (.dst .ext) "b" [3], .read 1, .handle, .next "", .handle,
    .read 0, .handle, .next "", .read 0, .handle]

/-- The event of `b` is passed over in place of that of `a`; at rest `b` is in the
destination and not in the source. -/
theorem converged_fails_kind : ¬ Converged (start.run sameKind) := by
  intro h
  have hheard : (start.run sameKind).discarded = true := by decide +kernel
  rw [h.heard] at hheard
  exact absurd hheard (by simp)

end AndroidLearn.Ghost
