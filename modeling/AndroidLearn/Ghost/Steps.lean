import AndroidLearn.Ghost.Invariant

/-!
# The steps of the mirror keep the invariant

The general lemmas on `Books` and `Files`, and the changes by others: a file that is
written or deleted in the source or in a destination, as `noticeSrc` and `noticeDst` tell
it to the monitor of `ghost.c`.

A change posts at most one event, at the end of the queue (`posted`); the monitor takes
events from the other end (`Books.pop` and `Files.pop` in `Monitor`). So what a change
does to the events that are on their way is one of three things, and each clause of
`Books` has a lemma on it (`Books.onList_post`, `Books.last_post`, `Books.inTurn_post`). A
step that leaves a part of the state alone keeps what is said of it (`Books.same`,
`Files.same`).

`Books.changeSrc`, `Files.changeSrc`, `Books.changeDst` and `Files.changeDst` are what the
modules behind this one use.
-/

namespace AndroidLearn.Ghost

open Coalesce

variable {s s' : State} {name : String} {kind : Kind}

/-! ## Events -/

/-- An event to come is still to come when more are. -/
theorem State.LiveSrc.mono {ns ns' : List Notice} (h : s.LiveSrc ns name)
    (hsrc : s'.wdSrc = s.wdSrc) (hsub : ∀ n ∈ ns, n ∈ ns') : s'.LiveSrc ns' name := by
  obtain ⟨wd, kind, own, hwd, hmem⟩ := h
  exact ⟨wd, kind, own, hsrc.trans hwd, hsub _ hmem⟩

theorem State.Live.mono {ns ns' : List Notice} (h : s.Live ns name) (hsrc : s'.wdSrc = s.wdSrc)
    (hdst : s'.wdDst = s.wdDst) (hsub : ∀ n ∈ ns, n ∈ ns') : s'.Live ns' name := by
  rcases h with h | ⟨wd, kind, hwd, hmem⟩
  · exact .inl (h.mono hsrc hsub)
  · exact .inr ⟨wd, kind, hdst.trans hwd, hsub _ hmem⟩

/-- What is posted: the event, or nothing where the last one in the queue is the same. -/
theorem posted (s : State) (n : Notice) :
    ∃ more, s.batch ++ post Notice.same s.queue n = s.pending ++ more ∧
      (more = [n] ∨ more = [] ∧
        ∃ m, s.queue.getLast? = some m ∧ s.pending.getLast? = some m ∧ m.same n = true) := by
  rcases @post_cases _ Notice.same s.queue n s.batch with
    ⟨m, hlast, hqueue, hsame, heq⟩ | heq
  · exact ⟨[], by rw [heq, List.append_nil]; rfl, .inr ⟨rfl, m, hqueue, hlast, hsame⟩⟩
  · exact ⟨[n], heq, .inl rfl⟩

/-- What is pending stays pending when an event is posted. -/
theorem mem_posted {n m : Notice} (hm : m ∈ s.pending) :
    m ∈ s.batch ++ post Notice.same s.queue n := by
  obtain ⟨more, heq, -⟩ := posted s n
  rw [heq]
  exact List.mem_append_left _ hm

/-- Nothing else is posted with it. -/
theorem of_mem_posted {n m : Notice} (hm : m ∈ s.batch ++ post Notice.same s.queue n) :
    m ∈ s.pending ∨ m = n := by
  obtain ⟨more, heq, hmore⟩ := posted s n
  rw [heq] at hm
  rcases List.mem_append.mp hm with hm | hm
  · exact .inl hm
  · rcases hmore with rfl | ⟨rfl, -⟩
    · exact .inr (List.mem_singleton.mp hm)
    · exact absurd hm List.not_mem_nil

/-- What is true of the event, and of one it is merged into, is true of one that is
under way. -/
theorem exists_posted {n : Notice} {P : Notice → Prop} (hn : P n)
    (htail : ∀ m, s.queue.getLast? = some m → m.same n = true → P m) :
    ∃ m ∈ s.batch ++ post Notice.same s.queue n, P m := by
  obtain ⟨more, heq, rfl | ⟨rfl, m, hqueue, hlast, hsame⟩⟩ := posted s n
  · exact ⟨n, by rw [heq]; simp, hn⟩
  · exact ⟨m, mem_posted (List.mem_of_getLast? hlast), htail m hqueue hsame⟩

/-- An event under way is the one posted, or an older one; then the one posted comes
behind it, or is merged into it. -/
theorem posted_split {n x : Notice} {pre suf : List Notice} {P : Notice → Prop} (hn : P n)
    (htail : ∀ m, s.queue.getLast? = some m → m.same n = true → P m)
    (hsplit : s.batch ++ post Notice.same s.queue n = pre ++ x :: suf) :
    (∃ suf', s.pending = pre ++ x :: suf' ∧ (∀ m ∈ suf', m ∈ suf) ∧ ((∃ m ∈ suf, P m) ∨ P x)) ∨
      x = n := by
  obtain ⟨more, heq, rfl | ⟨rfl, m, hqueue, hlast, hsame⟩⟩ := posted s n
  · rw [heq] at hsplit
    rcases split_append_singleton hsplit with ⟨suf', rfl, hold⟩ | ⟨hx, -, -⟩
    · exact .inl ⟨suf', hold, fun m hm => List.mem_append_left _ hm, .inl ⟨n, by simp, hn⟩⟩
    · exact .inr hx
  · rw [heq, List.append_nil] at hsplit
    have hm := htail m hqueue hsame
    rcases getLast?_split hsplit hlast with ⟨-, hx⟩ | hmem
    · exact .inl ⟨suf, hsplit, fun _ h => h, .inr (hx ▸ hm)⟩
    · exact .inl ⟨suf, hsplit, fun _ h => h, .inl ⟨m, hmem, hm⟩⟩

/-- An event that merges with this one is about the same file. -/
theorem same_file {m : Notice} {wd : Nat} {own : Bool} (h : m.same (.file wd kind name own) = true) :
    ∃ own', m = .file wd kind name own' := by
  cases m with
  | file wd' kind' name' own' =>
    simp only [Notice.same, Bool.and_eq_true, decide_eq_true_eq] at h
    obtain ⟨⟨rfl, rfl⟩, rfl⟩ := h
    exact ⟨own', rfl⟩
  | ignored wd' => exact absurd h Bool.false_ne_true

theorem mem_congr {d d' : Dir} (h : d'.lookup name = d.lookup name) : name ∈ d' ↔ name ∈ d := by
  rw [← AList.lookup_isSome, ← AList.lookup_isSome, h]

/-! ## Watches and events -/

/-- What `Books` is about, but for the place of the thread with the lock. -/
structure SameBooks (s s' : State) : Prop where
  pending : s'.pending = s.pending
  wdSrc : s'.wdSrc = s.wdSrc
  wdDst : s'.wdDst = s.wdDst
  dstWatch : s'.dstWatch = s.dstWatch
  nextWd : s'.nextWd = s.nextWd
  dropList : s'.dropList = s.dropList
  reach : s.dstWatch ≠ none → s'.pathDst = s.pathDst ∧ (s.dstDir ≠ none → s'.dstDir ≠ none)

/-- The books stay in order where no watch and no event changes. -/
theorem Books.same (h : Books s) (hsame : SameBooks s s')
    (hsyncing : s'.pc.copying ∨ s'.pc = .sync → s.wdDst = none)
    (hop : ∀ o, s'.pc = .op o → s.wdDst ≠ none) (hadd : s'.pc = .addDst → s.wdSrc ≠ none) :
    Books s' := by
  obtain ⟨hpending, hwdSrc, hwdDst, hwatch, hnext, hlist, hreach⟩ := hsame
  constructor
  · rw [hpending, hnext]
    exact h.fresh
  · rw [hwdSrc, hnext]
    exact h.freshSrc
  · rw [hwdDst, hnext]
    exact h.freshDst
  · rw [hwdSrc, hwdDst]
    exact h.apart
  · rw [hwdSrc, hwdDst]
    exact h.both
  · rw [hwatch, hwdDst]
    intro wd st hst
    obtain ⟨hpath, hdir⟩ := hreach (by rw [hst]; simp)
    obtain ⟨hwd, hpathDst, hthere⟩ := h.watched wd st hst
    exact ⟨hwd, hpathDst.trans hpath.symm, hdir hthere⟩
  · rw [hwdDst]
    exact hsyncing
  · rw [hwdDst]
    exact hop
  · rw [hwdSrc]
    exact hadd
  · rw [hpending, hlist]
    exact h.onList
  · rw [hpending, hwdDst]
    exact h.ownDst
  · rw [hpending, hwdSrc]
    exact h.srcKept
  · rw [hpending, hwdDst, hwatch]
    exact h.dead
  · rw [hpending, hwdDst]
    exact h.last
  · rw [hpending, hwdDst]
    exact h.inTurn

/-- The place of the thread stays as it is. -/
theorem Books.same_pc (h : Books s) (hsame : SameBooks s s') (hpc : s'.pc = s.pc) : Books s' := by
  refine h.same hsame ?_ ?_ ?_
  · rw [hpc]
    exact h.syncing
  · rw [hpc]
    exact h.operating
  · rw [hpc]
    exact h.adding

/-- No event of the monitor's own is under way where none is on the list. -/
theorem Books.none_own (h : Books s) (hlist : s.dropList = []) {wd : Nat} :
    .file wd kind name true ∉ s.pending := by
  intro hmem
  have hcount := h.onList kind
  rw [hlist, List.count_nil] at hcount
  have hpos := List.countP_pos_iff.mpr ⟨_, hmem, (by simp [Notice.isOwn] :
    Notice.isOwn kind (.file wd kind name true) = true)⟩
  omega

/-- Where the destination has no watch descriptor nothing is on the list. -/
theorem Books.list_empty (h : Books s) (hdst : s.wdDst = none) : s.dropList = [] := by
  refine List.eq_nil_iff_forall_not_mem.mpr fun kind hmem => ?_
  have hpos := List.count_pos_iff.mpr hmem
  rw [h.onList kind, List.countP_pos_iff] at hpos
  obtain ⟨n, hn, hown⟩ := hpos
  cases n with
  | file wd kind' name own =>
    simp only [Notice.isOwn, Bool.and_eq_true, decide_eq_true_eq] at hown
    rw [hown.1] at hn
    have hwd := h.ownDst _ _ _ hn
    rw [hdst] at hwd
    exact absurd hwd (by simp)
  | ignored wd => exact absurd hown Bool.false_ne_true

/-- A live watch is that of the destination's descriptor. -/
theorem Books.live_watch (h : Books s) {wd : Nat} (hdst : s.wdDst = some wd)
    (hwatch : s.dstWatch ≠ none) : s.dstWatch = some (wd, s.pathDst) := by
  obtain ⟨⟨wd', st⟩, hsome⟩ := Option.ne_none_iff_exists'.mp hwatch
  obtain ⟨hwd, rfl, -⟩ := h.watched wd' st hsome
  rw [hdst] at hwd
  obtain rfl := Option.some.inj hwd
  exact hsome

/-- The list stays the one of the monitor's own events. -/
theorem Books.onList_post (h : Books s) {wd : Nat} {own : Bool} {list : List Kind}
    (hown : own = true → list = kind :: s.dropList ∧
      s.queue.getLast? ≠ some (.file wd kind name true) ∧
      ∀ name', .file wd kind name' false ∉ s.pending)
    (hother : own = false → list = s.dropList) (k : Kind) :
    list.count k =
      (s.batch ++ post Notice.same s.queue (.file wd kind name own)).countP (Notice.isOwn k) := by
  cases own with
  | false =>
    obtain ⟨more, hmore, hcases⟩ := posted s (.file wd kind name false)
    rw [hother rfl, h.onList k, hmore, List.countP_append]
    rcases hcases with rfl | ⟨rfl, -⟩
    · rfl
    · rfl
  | true =>
    obtain ⟨hlist, htail, halone⟩ := hown rfl
    have hpost : post Notice.same s.queue (.file wd kind name true) =
        s.queue ++ [.file wd kind name true] := by
      refine post_of_ne fun m hm => ?_
      by_contra hsame
      obtain ⟨own', rfl⟩ := same_file (by simpa using hsame)
      cases own' with
      | true => exact htail hm
      | false => exact halone name (List.mem_append_right _ (List.mem_of_getLast? hm))
    rw [hlist, hpost, ← List.append_assoc, List.countP_append, List.count_cons, h.onList k]
    simp [Notice.isOwn, State.pending]

/-- A watch that is alive has an event after none that tells of its end. -/
theorem Books.last_post (h : Books s) {wd : Nat} {own : Bool} (halive : .ignored wd ∉ s.pending)
    {wd' : Nat} {pre suf : List Notice} (hwd' : s.wdDst = some wd')
    (hsplit : s.batch ++ post Notice.same s.queue (.file wd kind name own) =
      pre ++ .ignored wd' :: suf) : ∀ n ∈ suf, n.wd ≠ wd' := by
  intro n hn
  obtain ⟨more, hmore, hcases⟩ := posted s (.file wd kind name own)
  rw [hmore] at hsplit
  rcases hcases with rfl | ⟨rfl, -⟩
  · rcases split_append_singleton hsplit with ⟨suf', rfl, hold⟩ | ⟨hne, -, -⟩
    · rcases List.mem_append.mp hn with hn | hn
      · exact h.last wd' pre suf' hwd' hold n hn
      · obtain rfl := List.mem_singleton.mp hn
        rintro rfl
        exact halive (by rw [hold]; simp [Notice.wd])
    · exact absurd hne (by simp)
  · rw [List.append_nil] at hsplit
    exact h.last wd' pre suf hwd' hsplit n hn

/-- An event of the monitor's own comes behind no other of its kind. -/
theorem Books.inTurn_post (h : Books s) {wd : Nat} {own : Bool}
    (hown : own = true → ∀ name', .file wd kind name' false ∉ s.pending)
    (hwd : own = true → s.wdDst = some wd) {wd' : Nat} {kind' : Kind} {name' : String}
    {pre suf : List Notice} (hwd' : s.wdDst = some wd')
    (hsplit : s.batch ++ post Notice.same s.queue (.file wd kind name own) =
      pre ++ .file wd' kind' name' false :: suf) : ∀ n ∈ suf, n.isOwn kind' = false := by
  intro n hn
  obtain ⟨more, hmore, hcases⟩ := posted s (.file wd kind name own)
  rw [hmore] at hsplit
  rcases hcases with rfl | ⟨rfl, -⟩
  · rcases split_append_singleton hsplit with ⟨suf', rfl, hold⟩ | ⟨-, rfl, -⟩
    · rcases List.mem_append.mp hn with hn | hn
      · exact h.inTurn wd' kind' name' pre suf' hwd' hold n hn
      · obtain rfl := List.mem_singleton.mp hn
        cases own with
        | false => rfl
        | true =>
          -- the event before it is of another kind
          have hne : kind ≠ kind' := by
            rintro rfl
            obtain rfl := Option.some.inj (hwd'.symm.trans (hwd rfl))
            exact hown rfl name' (by rw [hold]; simp)
          simp [Notice.isOwn, hne]
    · exact absurd hn List.not_mem_nil
  · rw [List.append_nil] at hsplit
    exact h.inTurn wd' kind' name' pre suf hwd' hsplit n hn

/-- An event at a watch that is alive. -/
theorem Books.post_file (h : Books s) {wd : Nat} {own : Bool} {list : List Kind}
    (hwd : s.wdSrc = some wd ∧ own = false ∨ s.wdDst = some wd ∧ s.dstWatch ≠ none)
    (hown : own = true → list = kind :: s.dropList ∧
      s.queue.getLast? ≠ some (.file wd kind name true) ∧
      ∀ name', .file wd kind name' false ∉ s.pending)
    (hother : own = false → list = s.dropList) :
    Books { s with queue := post Notice.same s.queue (.file wd kind name own), dropList := list } := by
  have hfresh : wd < s.nextWd := by
    rcases hwd with ⟨hwd, -⟩ | ⟨hwd, -⟩
    · exact h.freshSrc wd hwd
    · exact h.freshDst wd hwd
  have halive : .ignored wd ∉ s.pending := by
    rcases hwd with ⟨hwd, -⟩ | ⟨hwd, hwatch⟩
    · exact h.srcKept wd hwd
    · exact fun hmem => hwatch ((h.dead wd hwd).mpr hmem)
  have hmem : ∀ n, n ∈ s.batch ++ post Notice.same s.queue (.file wd kind name own) →
      n ∈ s.pending ∨ n = .file wd kind name own := fun _ hn => of_mem_posted hn
  constructor
  · intro n hn
    rcases hmem _ hn with hn | rfl
    · exact h.fresh n hn
    · exact hfresh
  · exact h.freshSrc
  · exact h.freshDst
  · exact h.apart
  · exact h.both
  · exact h.watched
  · exact h.syncing
  · exact h.operating
  · exact h.adding
  · exact h.onList_post hown hother
  · intro wd' kind' name' hn
    rcases hmem _ hn with hn | hn
    · exact h.ownDst _ _ _ hn
    · obtain ⟨rfl, -, -, rfl⟩ := Notice.file.inj hn
      rcases hwd with ⟨-, hfalse⟩ | ⟨hwd, -⟩
      · exact absurd hfalse (by simp)
      · exact hwd
  · intro wd' hwd' hn
    rcases hmem _ hn with hn | hn
    · exact h.srcKept wd' hwd' hn
    · exact absurd hn (by simp)
  · intro wd' hwd'
    refine (h.dead wd' hwd').trans ⟨fun hn => ?_, fun hn => ?_⟩
    · exact mem_posted hn
    · rcases hmem _ hn with hn | hn
      · exact hn
      · exact absurd hn (by simp)
  · intro wd' pre suf hwd' hsplit
    exact h.last_post halive hwd' hsplit
  · intro wd' kind' name' pre suf hwd' hsplit
    refine h.inTurn_post (fun htrue => (hown htrue).2.2) (fun htrue => ?_) hwd' hsplit
    rcases hwd with ⟨-, hfalse⟩ | ⟨hwd, -⟩
    · exact absurd (htrue.symm.trans hfalse) (by simp)
    · exact hwd

/-! ## A change in the source -/

/-- A notice of the source touches the queue only. -/
theorem noticeSrc_eq (s : State) (kind : Kind) (name : String) :
    ∃ queue, s.noticeSrc kind name = { s with queue := queue } ∧
      (s.wdSrc = none ∧ queue = s.queue ∨
        ∃ wd, s.wdSrc = some wd ∧ queue = post Notice.same s.queue (.file wd kind name false)) := by
  unfold State.noticeSrc
  split
  next wd hwd => exact ⟨_, rfl, .inr ⟨wd, hwd, rfl⟩⟩
  next hwd => exact ⟨s.queue, rfl, .inl ⟨hwd, rfl⟩⟩

/-- What is to come does not depend on more files in the source. -/
theorem Pc.toCome_mono {src src' : Dir} {pc : Pc} (h : name ∈ src → name ∈ src')
    (hcome : pc.toCome src name) : pc.toCome src' name := by
  cases pc with
  | op o => cases o <;> exact hcome
  | restore rest => exact hcome.imp_right h
  | _ => exact hcome

/-- A change of the source leaves the books in order. -/
theorem Books.changeSrc (h : Books s) (src' : Dir) (kind : Kind) (name : String) :
    Books ({ s with src := src' }.noticeSrc kind name) := by
  have hsame : Books { s with src := src' } :=
    h.same_pc ⟨rfl, rfl, rfl, rfl, rfl, rfl, fun _ => ⟨rfl, id⟩⟩ rfl
  unfold State.noticeSrc
  split
  next wd hwd =>
    exact hsame.post_file (.inl ⟨hwd, rfl⟩) (fun hown => absurd hown (by simp))
      fun _ => rfl
  next => exact hsame

/-- A change of the source has its event. -/
theorem Files.changeSrc (hb : Books s) (h : Files s) {src' : Dir}
    (hother : ∀ g, g ≠ name → src'.lookup g = s.src.lookup g)
    (hthis : kind = .delete ↔ name ∉ src')
    (hcopy : s.Noticed ({ s with src := src' }.noticeSrc kind name) name) :
    Files ({ s with src := src' }.noticeSrc kind name) := by
  obtain ⟨queue, heq, hqueue⟩ := noticeSrc_eq { s with src := src' } kind name
  rw [heq] at hcopy ⊢
  have hmono : ∀ n ∈ s.pending, n ∈ s.batch ++ queue := by
    intro n hn
    rcases hqueue with ⟨-, rfl⟩ | ⟨wd, -, rfl⟩
    · exact hn
    · exact mem_posted hn
  -- the file's event is under way wherever the source is watched
  have hlive : s.wdSrc ≠ none →
      State.LiveSrc { s with src := src', queue := queue } (s.batch ++ queue) name := by
    intro hwatched
    rcases hqueue with ⟨hnone, -⟩ | ⟨wd, hwd, rfl⟩
    · exact absurd hnone hwatched
    · obtain ⟨m, hm, own, rfl⟩ := exists_posted (s := s) (n := .file wd kind name false)
        (P := fun m => ∃ own, m = .file wd kind name own) ⟨false, rfl⟩
        fun m _ hsame => same_file hsame
      exact ⟨wd, kind, own, hwd, hm⟩
  constructor
  · intro wd kind' g own pre suf hwd hsplit
    rcases hqueue with ⟨hnone, -⟩ | ⟨wd', hwd', rfl⟩
    · exact absurd (hnone.symm.trans hwd) (by simp)
    obtain rfl : wd' = wd := Option.some.inj (hwd'.symm.trans hwd)
    rcases posted_split (s := s) (P := fun m => ∃ own, m = .file wd' kind name own) ⟨false, rfl⟩
      (fun m _ hsame => same_file hsame) hsplit with ⟨suf', hold, hsub, hlater⟩ | hnew
    · by_cases hg : g = name
      · subst hg
        rcases hlater with ⟨m, hm, own', rfl⟩ | ⟨own', hx⟩
        · exact .inr ⟨wd', kind, own', hwd, hm⟩
        · obtain ⟨-, rfl, -, -⟩ := Notice.file.inj hx
          exact .inl hthis
      · rcases h.srcTrue wd' kind' g own pre suf' hwd hold with htrue | hsrc
        · exact .inl (htrue.trans (not_congr (mem_congr (hother g hg))).symm)
        · exact .inr (hsrc.mono rfl hsub)
    · obtain ⟨-, rfl, rfl, -⟩ := Notice.file.inj hnew
      exact .inl hthis
  · intro wd g pre suf hwd hwatch hsplit
    rcases hqueue with ⟨hnone, -⟩ | ⟨wd', hwd', rfl⟩
    · exact absurd hnone (hb.both (by rw [hwd]; simp))
    have hne : wd ≠ wd' := by
      rintro rfl
      exact hb.apart wd hwd' hwd
    rcases posted_split (s := s) (P := fun m => ∃ own, m = .file wd' kind name own) ⟨false, rfl⟩
      (fun m _ hsame => same_file hsame) hsplit with ⟨suf', hold, hsub, hlater⟩ | hnew
    · by_cases hg : g = name
      · subst hg
        rcases hlater with ⟨m, hm, own', rfl⟩ | ⟨own', hx⟩
        · exact .inr (.inr (.inl ⟨wd', kind, own', hwd', hm⟩))
        · exact absurd (Notice.file.inj hx).1 hne
      · rcases h.dstTrue wd g pre suf' hwd hwatch hold with hnone | hmem | hlive
        · exact .inl hnone
        · exact .inr (.inl ((mem_congr (hother g hg)).mpr hmem))
        · exact .inr (.inr (hlive.mono rfl rfl hsub))
    · exact absurd (Notice.file.inj hnew).1 hne
  · intro g hpc
    by_cases hg : g = name
    · subst hg
      exact .inr (hlive (hb.both (hb.operating _ hpc)))
    · rcases h.opCopy g hpc with hmem | hsrc
      · exact .inl ((mem_congr (hother g hg)).mpr hmem)
      · exact .inr (hsrc.mono rfl hmono)
  · intro g hpc
    by_cases hg : g = name
    · subst hg
      exact .inr (hlive (hb.both (hb.operating _ hpc)))
    · rcases h.opDelete g hpc with hmem | hsrc
      · exact .inl fun hin => hmem ((mem_congr (hother g hg)).mp hin)
      · exact .inr (hsrc.mono rfl hmono)
  · intro hfail hon g
    by_cases hg : g = name
    · subst hg
      by_cases hwatched : s.wdSrc = none
      · rcases hon.2 with hcopying | hwatch
        · exact hcopy hcopying hon.1
        · obtain ⟨⟨wd, st⟩, hsome⟩ := Option.ne_none_iff_exists'.mp hwatch
          have hdst := (hb.watched wd st hsome).1
          exact absurd hwatched (hb.both (by rw [hdst]; simp))
      · exact .inr (.inl (.inl (hlive hwatched)))
    · rcases h.settled hfail hon g with hequal | hold | hcome
      · exact .inl (hequal.trans (hother g hg).symm)
      · exact .inr (.inl (hold.mono rfl rfl hmono))
      · exact .inr (.inr (Pc.toCome_mono (mem_congr (hother g hg)).mpr hcome))
  · exact h.heard

/-! ## A change in the destination -/

/-- A notice of a destination touches the queue only. -/
theorem noticeDst_eq (s : State) (st : Storage) (kind : Kind) (name : String) (own : Bool) :
    ∃ queue, s.noticeDst st kind name own = { s with queue := queue } ∧
      ((∀ wd, s.dstWatch ≠ some (wd, st)) ∧ queue = s.queue ∨
        ∃ wd, s.dstWatch = some (wd, st) ∧
          queue = post Notice.same s.queue (.file wd kind name own)) := by
  unfold State.noticeDst
  split
  next wd watched hwatch =>
    split
    next hst => exact ⟨_, rfl, .inr ⟨wd, by rw [hwatch, hst], rfl⟩⟩
    next hst =>
      refine ⟨s.queue, rfl, .inl ⟨fun wd' h => ?_, rfl⟩⟩
      rw [hwatch] at h
      exact hst (Prod.mk.inj (Option.some.inj h)).2
  next hwatch => exact ⟨s.queue, rfl, .inl ⟨fun wd h => by rw [hwatch] at h; contradiction, rfl⟩⟩

/-- A change on one storage is not seen on another. -/
theorem dirAt_setDst_ne {st st' : Storage} (h : st' ≠ st) (d : Option Dir) :
    (s.setDst st d).dirAt st' = s.dirAt st' := by
  unfold State.dirAt State.setDst
  dsimp only
  rw [Function.update_of_ne h]

/-- A change on a mounted storage is seen. -/
theorem dirAt_setDst {st : Storage} (h : s.mounted st = true) (d : Option Dir) :
    (s.setDst st d).dirAt st = d := by
  unfold State.dirAt State.setDst
  dsimp only
  rw [if_pos h, Function.update_self]

/-- A storage that has a directory is mounted. -/
theorem mounted_of_dirAt {st : Storage} {d : Dir} (h : s.dirAt st = some d) : s.mounted st = true := by
  unfold State.dirAt at h
  split at h
  next hup => exact hup
  next => exact absurd h (by simp)

/-- A directory stays one. -/
theorem Books.setDst (h : Books s) (st : Storage) (d : Dir) : Books (s.setDst st (some d)) := by
  refine h.same_pc ⟨rfl, rfl, rfl, rfl, rfl, rfl, fun _ => ⟨rfl, fun hreach => ?_⟩⟩ rfl
  show (s.setDst st (some d)).dirAt s.pathDst ≠ none
  by_cases hst : s.pathDst = st
  · obtain ⟨d₀, hd₀⟩ := Option.ne_none_iff_exists'.mp hreach
    have hd₀ : s.dirAt s.pathDst = some d₀ := hd₀
    rw [hst] at hd₀ ⊢
    rw [dirAt_setDst (mounted_of_dirAt hd₀)]
    simp
  · rw [dirAt_setDst_ne hst]
    exact hreach

/-- A foreign change of a destination leaves the books in order. -/
theorem Books.changeDst (h : Books s) (st : Storage) (d : Dir) (kind : Kind) (name : String) :
    Books ((s.setDst st (some d)).noticeDst st kind name false) := by
  have hset := h.setDst st d
  obtain ⟨queue, heq, ⟨-, rfl⟩ | ⟨wd, hwatch, rfl⟩⟩ :=
    noticeDst_eq (s.setDst st (some d)) st kind name false
  · rw [heq]
    exact hset
  · rw [heq]
    have hwd := (hset.watched wd st hwatch).1
    exact hset.post_file (.inr ⟨hwd, by rw [hwatch]; simp⟩)
      (fun hown => absurd hown (by simp)) fun _ => rfl

/-- What `Files` is about. -/
structure SameFiles (s s' : State) : Prop where
  pending : s'.pending = s.pending
  src : s'.src = s.src
  wdSrc : s'.wdSrc = s.wdSrc
  wdDst : s'.wdDst = s.wdDst
  dstWatch : s'.dstWatch = s.dstWatch
  dstDir : s'.dstDir = s.dstDir
  pc : s'.pc = s.pc
  failed : s'.failed = s.failed
  discarded : s'.discarded = s.discarded

/-- The files stay in step where nothing of them changes. -/
theorem Files.same (h : Files s) (hsame : SameFiles s s') : Files s' := by
  obtain ⟨hpending, hsrc, hwdSrc, hwdDst, hwatch, hdir, hpc, hfailed, hdiscarded⟩ := hsame
  have hfile : ∀ g, s'.dstFile g = s.dstFile g := by
    intro g
    unfold State.dstFile
    rw [hdir]
  constructor
  · intro wd kind g own pre suf hwd hsplit
    rw [hpending] at hsplit
    rw [hwdSrc] at hwd
    rw [hsrc]
    exact (h.srcTrue wd kind g own pre suf hwd hsplit).imp_right fun hlive =>
      hlive.mono hwdSrc fun _ hn => hn
  · intro wd g pre suf hwd halive hsplit
    rw [hpending] at hsplit
    rw [hwdDst] at hwd
    rw [hwatch] at halive
    rw [hfile, hsrc]
    exact (h.dstTrue wd g pre suf hwd halive hsplit).imp_right fun hlive =>
      hlive.imp_right fun hlive => hlive.mono hwdSrc hwdDst fun _ hn => hn
  · intro g hop
    rw [hpc] at hop
    rw [hsrc, hpending]
    exact (h.opCopy g hop).imp_right fun hlive => hlive.mono hwdSrc fun _ hn => hn
  · intro g hop
    rw [hpc] at hop
    rw [hsrc, hpending]
    exact (h.opDelete g hop).imp_right fun hlive => hlive.mono hwdSrc fun _ hn => hn
  · intro hfail hon g
    have hon : s.On := by
      unfold State.On at hon ⊢
      rwa [hdir, hpc, hwatch] at hon
    unfold State.Settled
    rw [hfile, hsrc, hpending, hpc]
    exact (h.settled (hfailed ▸ hfail) hon g).imp_right fun hlive =>
      hlive.imp_left fun hlive => hlive.mono hwdSrc hwdDst fun _ hn => hn
  · rw [hdiscarded]
    exact h.heard

/-- A change in another directory than the destination. -/
theorem Files.changeOther (hb : Books s) (h : Files s) {st : Storage} (hst : st ≠ s.pathDst) (d : Dir)
    (kind : Kind) (name : String) :
    Files ((s.setDst st (some d)).noticeDst st kind name false) := by
  obtain ⟨queue, heq, ⟨-, rfl⟩ | ⟨wd, hwatch, rfl⟩⟩ :=
    noticeDst_eq (s.setDst st (some d)) st kind name false
  · rw [heq]
    have hdir : (s.setDst st (some d)).dstDir = s.dstDir := dirAt_setDst_ne hst.symm _
    exact h.same ⟨rfl, rfl, rfl, rfl, rfl, hdir, rfl, rfl, rfl⟩
  · exact absurd (hb.watched wd st hwatch).2.1 hst

/-- A foreign change of the destination has its event, if it is not merged away. -/
theorem Files.changeDst (hb : Books s) (h : Files s) {d d' : Dir} (hd : s.dstDir = some d)
    (hother : ∀ g, g ≠ name → d'.lookup g = d.lookup g)
    (hthis : kind = .delete → d'.lookup name = none) (hmerge : s.NotMerged s.pathDst kind name)
    (hcopy : s.Noticed ((s.setDst s.pathDst (some d')).noticeDst s.pathDst kind name false) name) :
    Files ((s.setDst s.pathDst (some d')).noticeDst s.pathDst kind name false) := by
  obtain ⟨queue, heq, hqueue⟩ := noticeDst_eq (s.setDst s.pathDst (some d')) s.pathDst kind name false
  rw [heq] at hcopy ⊢
  have hup := mounted_of_dirAt hd
  have hold : ∀ g, s.dstFile g = d.lookup g := by
    intro g
    unfold State.dstFile
    rw [hd]
    rfl
  have hnew : ∀ g, State.dstFile { s.setDst s.pathDst (some d') with queue := queue } g =
      d'.lookup g := by
    intro g
    show ((s.setDst s.pathDst (some d')).dirAt s.pathDst).bind _ = _
    rw [dirAt_setDst hup]
    rfl
  have hmono : ∀ n ∈ s.pending, n ∈ s.batch ++ queue := by
    intro n hn
    rcases hqueue with ⟨-, rfl⟩ | ⟨wd, -, rfl⟩
    · exact hn
    · exact mem_posted (s := s.setDst s.pathDst (some d')) hn
  have htail : ∀ wd m, s.dstWatch = some (wd, s.pathDst) → s.queue.getLast? = some m →
      m.same (.file wd kind name false) = true → m = .file wd kind name false := by
    intro wd m hwatch hlast hsame
    obtain ⟨own, rfl⟩ := same_file hsame
    cases own with
    | false => rfl
    | true => exact absurd hlast (hmerge wd hwatch)
  constructor
  · intro wd kind' g own pre suf hwd hsplit
    rcases hqueue with ⟨-, rfl⟩ | ⟨wd', hwatch, rfl⟩
    · exact h.srcTrue wd kind' g own pre suf hwd hsplit
    rcases posted_split (s := s) (P := fun _ => True) trivial (fun _ _ _ => trivial) hsplit with
      ⟨suf', hsplit, hsub, -⟩ | hx
    · exact (h.srcTrue wd kind' g own pre suf' hwd hsplit).imp_right fun hlive => hlive.mono rfl hsub
    · obtain ⟨rfl, -, -, -⟩ := Notice.file.inj hx
      exact absurd (hb.watched wd _ hwatch).1 (hb.apart wd hwd)
  · intro wd g pre suf hwd halive hsplit
    have hwatch := hb.live_watch hwd halive
    rcases hqueue with ⟨hnot, -⟩ | ⟨wd', hwatch', rfl⟩
    · exact absurd hwatch (hnot wd)
    obtain ⟨rfl, -⟩ := Prod.mk.inj (Option.some.inj (hwatch'.symm.trans hwatch))
    rw [hnew]
    rcases posted_split (s := s) (P := fun m => m = .file wd' kind name false) rfl
      (fun m hlast hsame => htail wd' m hwatch hlast hsame) hsplit with
      ⟨suf', hsplit, hsub, hlater⟩ | hx
    · by_cases hg : g = name
      · subst hg
        cases kind with
        | delete => exact .inl (hthis rfl)
        | closeWrite =>
          rcases hlater with ⟨m, hm, rfl⟩ | hx
          · exact .inr (.inr (.inr ⟨wd', .closeWrite, hwd, hm⟩))
          · exact absurd (Notice.file.inj hx).2.1 (by simp)
      · rcases h.dstTrue wd' g pre suf' hwd halive hsplit with hnone | hmem | hlive
        · exact .inl (by rw [hother g hg, ← hold, hnone])
        · exact .inr (.inl hmem)
        · exact .inr (.inr (hlive.mono rfl rfl hsub))
    · obtain ⟨-, rfl, rfl, -⟩ := Notice.file.inj hx
      exact .inl (hthis rfl)
  · intro g hpc
    exact (h.opCopy g hpc).imp_right fun hlive => hlive.mono rfl hmono
  · intro g hpc
    exact (h.opDelete g hpc).imp_right fun hlive => hlive.mono rfl hmono
  · intro hfail hon g
    by_cases hg : g = name
    · subst hg
      rcases hon.2 with hcopying | halive
      · exact hcopy hcopying hon.1
      · rcases hqueue with ⟨hnot, -⟩ | ⟨wd, hwatch, rfl⟩
        · obtain ⟨⟨wd, st⟩, hwatch⟩ := Option.ne_none_iff_exists'.mp halive
          have hst := (hb.watched wd st hwatch).2.1
          exact absurd (hst ▸ hwatch) (hnot wd)
        · obtain ⟨m, hm, rfl⟩ := exists_posted (s := s) (n := .file wd kind g false)
            (P := fun m => m = .file wd kind g false) rfl
            fun m hlast hsame => htail wd m hwatch hlast hsame
          exact .inr (.inl (.inr ⟨wd, kind, (hb.watched wd _ hwatch).1, hm⟩))
    · have hreach : s.dstDir ≠ none := by
        rw [hd]
        simp
      rcases h.settled hfail ⟨hreach, hon.2⟩ g with hequal | hlive | hcome
      · exact .inl (by rw [hnew, hother g hg, ← hold]; exact hequal)
      · exact .inr (.inl (hlive.mono rfl rfl hmono))
      · exact .inr (.inr hcome)
  · exact h.heard

end AndroidLearn.Ghost
