import NmLogging.Sinks.File
import NmLogging.Sinks.Registry

/-!
# The descriptors of the sinks

What becomes of the descriptors that the constructors open and the sinks use, whatever the
calls of the operating system return or raise. A constructor that raises leaves none of its
descriptors open, and one that returns leaves the one of its sink (`Constructions.open_files`).
In every interleaving of appends and closes, nothing is done with a descriptor that has been
closed, closing it a second time included, and when a `close` has ended, however it ended, the
descriptor is closed (`descriptor_live`).
-/

namespace NmLogging

/-! ## Constructing -/

/-- The open descriptors of files, and whether the directory is open. -/
structure OpenFiles where
  files : List Nat
  directory : Bool

/-- What an operation of a constructor does with descriptors. `os.close` gives up the
descriptor, also where it raises. -/
def openFilesStep (d : OpenFiles) : (o : InitOp) → initSig.Ret o → OpenFiles → Prop
  | .osOpen, .ok fd, d' => fd ∉ d.files ∧ d' = { d with files := fd :: d.files }
  | .osOpen, .error _, d' => d' = d
  | .osFstat _, _, d' => d' = d
  | .osOpenDirectory, .ok _, d' => d' = { d with directory := true }
  | .osOpenDirectory, .error _, d' => d' = d
  | .osFsyncDirectory, _, d' => d' = d
  | .osCloseDirectory, _, d' => d' = { d with directory := false }
  | .register _ _, _, d' => d' = d
  | .osClose fd, _, d' => d' = { d with files := d.files.erase fd }

/-- A descriptor is used while it is open. -/
def openFilesPre (d : OpenFiles) : InitOp → Prop
  | .osFstat fd | .osClose fd => fd ∈ d.files
  | .osFsyncDirectory | .osCloseDirectory => d.directory = true
  | .osOpen | .osOpenDirectory | .register _ _ => True

/-- The semantics of constructors, any call of which may return or raise anything. -/
def openFilesSem : Semantics initSig OpenFiles where
  step := openFilesStep
  pre := openFilesPre

variable {d d' : OpenFiles} {fd : Nat}

/-- An operation that leaves all descriptors as they are. -/
theorem wp_kept {o : InitOp} {α : Type} {k : initSig.Ret o → InitProg α}
    {Q : Except PyError α → OpenFiles → Prop} (hpre : openFilesPre d o)
    (hkept : ∀ {r : initSig.Ret o} {t : OpenFiles}, openFilesStep d o r t → t = d)
    (h : ∀ r, (k r).wp openFilesSem d Q) : (Prog.op (S := initSig) o k).wp openFilesSem d Q :=
  ⟨hpre, fun r _ hs => hkept hs ▸ h r⟩

theorem wp_osOpen {Q : Except PyError Nat → OpenFiles → Prop} (herr : ∀ e, Q (.error e) d)
    (hok : ∀ fd, fd ∉ d.files → Q (.ok fd) { d with files := fd :: d.files }) :
    osOpen.wp openFilesSem d Q := by
  refine ⟨trivial, fun r d' hs => Prog.wp_ofExcept.mpr ?_⟩
  cases (r : Except PyError Nat) with
  | ok fd =>
    obtain ⟨hnew, rfl⟩ := hs
    exact hok fd hnew
  | error e =>
    rw [show d' = d from hs]
    exact herr e

/-- `_fsync_directory` closes the directory that it opens. -/
theorem fsyncDirectory_closes (h : d.directory = false) :
    fsyncDirectory.wp openFilesSem d fun _ d' => d' = d := by
  have closed : ({ d with directory := false } : OpenFiles) = d := by
    rw [← h]
  have close : ∀ {p : InitProg Unit},
      p.wp openFilesSem d (fun _ d' => d' = d) →
      (osCloseDirectory >>= fun _ => p).wp openFilesSem { d with directory := true }
        fun _ d' => d' = d := by
    intro p hp
    refine (Prog.wp_bind _ _ _ _).mpr ⟨rfl, fun r d' hs => Prog.wp_ofExcept.mpr ?_⟩
    have hd : d' = d := Eq.trans hs closed
    rw [hd]
    cases (r : Except PyError Unit) with
    | ok u => exact hp
    | error e => exact rfl
  refine (Prog.wp_elim _ _ _ _ _).mpr ⟨trivial, fun r d' hs => Prog.wp_ofExcept.mpr ?_⟩
  cases (r : Except PyError Unit) with
  | error e =>
    rw [show d' = d from hs]
    show (if e.isA .osError then _ else Prog.throw e : InitProg Unit).wp _ _ _
    split <;> exact rfl
  | ok u =>
    rw [show d' = { d with directory := true } from hs]
    refine (Prog.wp_elim _ _ _ _ _).mpr ((Prog.wp_elim _ _ _ _ _).mpr ?_)
    refine wp_kept rfl (fun hs => hs) fun r => Prog.wp_ofExcept.mpr ?_
    cases (r : Except PyError Unit) with
    | ok u => exact ⟨rfl, fun r d' hs => Prog.wp_ofExcept.mpr (Eq.trans hs closed)⟩
    | error e =>
      show (if e.isA .osError then _ else Prog.throw e : InitProg Unit).wp _ _ _
      split <;> exact close rfl

/-- What a constructor leaves open: its descriptor, if it returns. -/
structure LeavesOpen (d : OpenFiles) (res : Except PyError (Nat × Nat)) (d' : OpenFiles) : Prop where
  directory : d'.directory = false
  returned : ∀ sink, res = .ok sink → sink.1 ∉ d.files ∧ d'.files = sink.1 :: d.files
  raised : ∀ e, res = .error e → d'.files = d.files

theorem leavesOpen_error {e : PyError} (h : d.directory = false) (hd : d' = d) :
    LeavesOpen d (.error e) d' :=
  ⟨hd ▸ h, by rintro sink ⟨⟩, fun _ _ => by rw [hd]⟩

/-- What stands after `os.open`: whatever the body does that leaves the descriptors alone, if it
raises the descriptor is closed. -/
theorem closes_on_error {body : InitProg (Nat × Nat)} {err : PyError → InitProg (Nat × Nat)}
    (h : d.directory = false) (hnew : fd ∉ d.files)
    (hbody : body.wp openFilesSem { d with files := fd :: d.files } fun res d' =>
      d' = { d with files := fd :: d.files } ∧ ∀ sink, res = .ok sink → sink.1 = fd)
    (herr : ∀ e d', d' = d → (err e).wp openFilesSem d' (LeavesOpen d)) :
    (body.elim .ret fun e => osCloseFile fd >>= fun _ => err e).wp openFilesSem
      { d with files := fd :: d.files } (LeavesOpen d) := by
  rw [Prog.wp_elim]
  refine Prog.wp_mono hbody ?_
  rintro res _ ⟨rfl, hfd⟩
  cases res with
  | ok sink => exact ⟨h, fun _ hs => by cases hs; rw [hfd sink rfl]; exact ⟨hnew, rfl⟩, by rintro e ⟨⟩⟩
  | error e =>
    refine (Prog.wp_bind _ _ _ _).mpr
      ⟨List.mem_cons_self, fun r d' hs => Prog.wp_ofExcept.mpr ?_⟩
    have hd : d' = d := by
      rw [show d' = { d with files := (fd :: d.files).erase fd } from hs, List.erase_cons_head]
    cases (r : Except PyError Unit) with
    | ok u => exact herr e d' hd
    | error e' => exact leavesOpen_error h hd

/-- The constructors of both kinds. -/
theorem init_leaves (kind : StreamKind) (h : d.directory = false) :
    kind.init.wp openFilesSem d (LeavesOpen d) := by
  have register_kept : ∀ {fd id kind}, (registerStream id kind >>= fun state =>
      Prog.ret (fd, state) : InitProg (Nat × Nat)).wp openFilesSem { d with files := fd :: d.files }
      fun res d' => d' = { d with files := fd :: d.files } ∧ ∀ sink, res = .ok sink → sink.1 = fd := by
    intro fd id kind
    refine (Prog.wp_bind _ _ _ _).mpr
      (wp_kept trivial (fun hs => hs) fun r => Prog.wp_ofExcept.mpr ?_)
    cases (r : Except PyError Nat) with
    | ok state => exact ⟨rfl, by rintro sink ⟨⟩; rfl⟩
    | error e => exact ⟨rfl, by rintro sink ⟨⟩⟩
  have open_error : ∀ {e e' : PyError}, (if e.isA .osError then Prog.throw e' else Prog.throw e :
      InitProg (Nat × Nat)).wp openFilesSem d (LeavesOpen d) := by
    intro e e'
    split <;> exact leavesOpen_error h rfl
  cases kind with
  | operational =>
    refine (Prog.wp_elim _ _ _ _ _).mpr (wp_osOpen (fun e => open_error) fun fd hnew => ?_)
    refine closes_on_error h hnew ?_ fun e d' hd => leavesOpen_error h hd
    refine (Prog.wp_bind _ _ _ _).mpr
      (wp_kept List.mem_cons_self (fun hs => hs) fun r => Prog.wp_ofExcept.mpr ?_)
    cases (r : Except PyError Identity) with
    | ok id => exact register_kept
    | error e => exact ⟨rfl, by rintro sink ⟨⟩⟩
  | audit =>
    refine (Prog.wp_elim _ _ _ _ _).mpr (wp_osOpen (fun e => open_error) fun fd hnew => ?_)
    refine closes_on_error h hnew ?_ fun e d' hd => ?_
    · refine (Prog.wp_bind _ _ _ _).mpr
        (wp_kept List.mem_cons_self (fun hs => hs) fun r => Prog.wp_ofExcept.mpr ?_)
      cases (r : Except PyError Identity) with
      | error e => exact ⟨rfl, by rintro sink ⟨⟩⟩
      | ok id =>
        refine (Prog.wp_bind _ _ _ _).mpr (Prog.wp_mono (fsyncDirectory_closes h) ?_)
        rintro res _ rfl
        cases res with
        | ok u => exact register_kept
        | error e => exact ⟨rfl, by rintro sink ⟨⟩⟩
    · show (if e.isA .osError then _ else Prog.throw e : InitProg (Nat × Nat)).wp _ _ _
      split <;> exact leavesOpen_error h hd

/-- Constructors run one after the other, and how each ended. -/
inductive Constructions (d : OpenFiles) :
    List (Except PyError (Nat × Nat)) → OpenFiles → Prop where
  | nil : Constructions d [] d
  | snoc {results : List (Except PyError (Nat × Nat))} {t d' : OpenFiles} {kind : StreamKind}
    {res : Except PyError (Nat × Nat)} (h : Constructions d results t)
    (hruns : kind.init.Runs openFilesSem t res d') : Constructions d (results ++ [res]) d'

/-- The descriptors of the sinks that were constructed. -/
def constructed (results : List (Except PyError (Nat × Nat))) : List Nat :=
  results.filterMap fun res => res.toOption.map Prod.fst

/-- **Descriptor hygiene.** However many sinks of either kind are constructed, and whatever fails
meanwhile, the descriptors that are open in the end are those that were and one for each
constructor that returned, all of them different. No directory stays open. -/
theorem Constructions.open_files {results : List (Except PyError (Nat × Nat))}
    (h : Constructions d results d') (hdir : d.directory = false) (hnodup : d.files.Nodup) :
    d'.directory = false ∧ d'.files = (constructed results).reverse ++ d.files ∧
      d'.files.Nodup := by
  induction h with
  | nil => exact ⟨hdir, rfl, hnodup⟩
  | @snoc results t d' kind res _ hruns ih =>
    obtain ⟨htdir, htfiles, htnodup⟩ := ih
    have hleaves := hruns.post (init_leaves kind htdir)
    rw [constructed, List.filterMap_append, List.reverse_append]
    cases res with
    | ok sink =>
      obtain ⟨hnew, hfiles⟩ := hleaves.returned sink rfl
      refine ⟨hleaves.directory, ?_, ?_⟩
      · rw [hfiles, htfiles]
        rfl
      · rw [hfiles]
        exact List.nodup_cons.mpr ⟨hnew, htnodup⟩
    | error e =>
      rw [hleaves.raised e rfl]
      exact ⟨hleaves.directory, htfiles, htnodup⟩

/-- A sink is constructed, and another one is not, as its file cannot be stat-ed. -/
theorem exists_constructions : Constructions ⟨[], false⟩
    [.ok (3, 0), .error (configurationError "could not stat the audit sink target")]
    ⟨[3], false⟩ := by
  have h₁ : JsonlSink.init.Runs openFilesSem ⟨[], false⟩ (.ok (3, 0)) ⟨[3], false⟩ := by
    refine .op (r := (Except.ok 3 : Except PyError Nat)) (t := (⟨[3], false⟩ : OpenFiles)) ?_
      (.op (r := (Except.ok (0, 0) : Except PyError Identity)) rfl ?_)
    · exact ⟨List.not_mem_nil, rfl⟩
    · show Prog.Runs _ (Prog.op (S := initSig) (.register (0, 0) .operational) _) _ _ _
      exact .op (r := (Except.ok 0 : Except PyError Nat)) rfl .ret
  have h₂ : JsonlAuditSink.init.Runs openFilesSem ⟨[3], false⟩
      (.error (configurationError "could not stat the audit sink target")) ⟨[3], false⟩ := by
    refine .op (r := (Except.ok 4 : Except PyError Nat)) (t := (⟨[4, 3], false⟩ : OpenFiles)) ?_
      (.op (r := (Except.error ⟨OSError, lit "Bad file descriptor"⟩ : Except PyError Identity))
        rfl ?_)
    · exact ⟨by decide, rfl⟩
    · show Prog.Runs _ (Prog.op (S := initSig) (.osClose 4) _) _ _ _
      exact .op (r := (Except.ok () : Except PyError Unit)) rfl .throw
  exact @Constructions.snoc _ _ _ _ .audit _ (@Constructions.snoc _ _ _ _ .operational _ .nil h₁) h₂

theorem open_files_stat : (constructed [.ok (3, 0),
    .error (configurationError "could not stat the audit sink target")]).reverse ++ [] = [3] :=
  (exists_constructions.open_files rfl List.nodup_nil).2.1.symm

/-! ## Using -/

/-- The sinks of a file that are marked as closed, those whose descriptors are open, whether their
stream is latched, and which calls have found or left which sink closed. -/
structure Handles where
  closed : Nat → Bool
  opened : Nat → Bool
  latched : Bool
  ends : List (Nat × Nat)

namespace Handles

/-- The `i`-th call leaves the sink closed. -/
def mark (h : Handles) (i sink : Nat) : Handles := { h with ends := (i, sink) :: h.ends }

/-- What an operation of the `i`-th call, on `sink`, does. Calls of the operating system return
or raise anything; `os.close` gives up the descriptor in any case. -/
def step (i sink : Nat) (h : Handles) : (o : StreamOp) → streamSig.Ret o → Handles → Prop
  | .isClosed, r, h' => r = h.closed sink ∧ h' = bif h.closed sink then h.mark i sink else h
  | .setClosed, _, h' => h' = { h with closed := Function.update h.closed sink true }
  | .isLatched, r, h' => r = h.latched ∧ h' = h
  | .setLatched, _, h' => h' = { h with latched := true }
  | .osWrite _, _, h' => h' = h
  | .osFsync, _, h' => h' = h
  | .osClose, _, h' => h' = { h with opened := Function.update h.opened sink false }.mark i sink

/-- A descriptor is used while it is open. -/
def mayUse (sink : Nat) (h : Handles) : StreamOp → Prop
  | .osWrite _ | .osFsync | .osClose => h.opened sink = true
  | .isClosed | .setClosed | .isLatched | .setLatched => True

/-- What was left closed stays so. -/
structure Settled (h : Handles) : Prop where
  opened : ∀ k, h.closed k = false → h.opened k = true
  ends : ∀ x ∈ h.ends, h.closed x.2 = true ∧ h.opened x.2 = false

/-- Between calls, the sinks whose descriptors are open are those not marked as closed. -/
structure Tidy (h : Handles) : Prop extends Settled h where
  closed : ∀ k, h.closed k = true → h.opened k = false

/-- The sinks that the `i`-th call has found or left closed. -/
def ended (i : Nat) (h : Handles) : List Nat := (h.ends.filter fun x => x.1 = i).map Prod.snd

theorem ended_mark {i j sink : Nat} (h : Handles) (hij : i ≠ j) :
    (h.mark j sink).ended i = h.ended i := by
  rw [ended, mark, List.filter_cons_of_neg (by simpa using Ne.symm hij), ended]

theorem mem_ended_mark (h : Handles) (i sink : Nat) : sink ∈ (h.mark i sink).ended i := by
  rw [ended, mark, List.filter_cons_of_pos (by simp)]
  exact List.mem_cons_self

theorem ended_step {i j sink : Nat} {h h' : Handles} {o : StreamOp} {r : streamSig.Ret o}
    (hs : step j sink h o r h') (hij : i ≠ j) : h'.ended i = h.ended i := by
  cases o with
  | isClosed =>
    obtain ⟨-, rfl⟩ := hs
    cases h.closed sink with
    | true => exact ended_mark h hij
    | false => rfl
  | setClosed => rw [show h' = _ from hs]; rfl
  | isLatched => rw [hs.2]
  | setLatched => rw [show h' = _ from hs]; rfl
  | osWrite data => rw [show h' = h from hs]
  | osFsync => rw [show h' = h from hs]
  | osClose => rw [show h' = _ from hs]; exact ended_mark _ hij

/-- What a call finds when it asks whether its sink is closed. -/
theorem found {i sink : Nat} {h h' : Handles} {r : Bool}
    (hs : step i sink h .isClosed r h') :
    (r = true ∧ h.closed sink = true ∧ h' = h.mark i sink) ∨
      (r = false ∧ h.closed sink = false ∧ h' = h) := by
  obtain ⟨hr, rfl⟩ := hs
  cases hc : h.closed sink with
  | true => exact .inl ⟨hr.trans hc, rfl, rfl⟩
  | false => exact .inr ⟨hr.trans hc, rfl, rfl⟩

/-- A latch changes nothing. -/
theorem Tidy.latch {h : Handles} (ht : h.Tidy) : ({ h with latched := true } : Handles).Tidy :=
  ⟨⟨ht.opened, ht.ends⟩, ht.closed⟩

/-- A call finds a sink closed. -/
theorem Tidy.mark {h : Handles} (ht : h.Tidy) {sink : Nat} (hc : h.closed sink = true) (i : Nat) :
    (h.mark i sink).Tidy := by
  refine ⟨⟨ht.opened, fun x hx => ?_⟩, ht.closed⟩
  rcases List.mem_cons.mp hx with rfl | hx
  · exact ⟨hc, ht.closed _ hc⟩
  · exact ht.ends x hx

/-- A call marks a sink as closed, whose descriptor is still open. -/
theorem Tidy.setClosed {h : Handles} (ht : h.Tidy) (sink : Nat) :
    ({ h with closed := Function.update h.closed sink true } : Handles).Settled := by
  refine ⟨fun k hk => ht.opened k ?_, fun x hx => ⟨?_, (ht.ends x hx).2⟩⟩
  · by_cases e : k = sink
    · subst e
      simp at hk
    · simpa [Function.update_of_ne e] using hk
  · by_cases e : x.2 = sink
    · simp [e]
    · simpa [Function.update_of_ne e] using (ht.ends x hx).1

/-- And gives the descriptor up. -/
theorem Tidy.osClose {h : Handles} (ht : h.Tidy) (i sink : Nat) :
    (({ h with
        closed := Function.update h.closed sink true
        opened := Function.update h.opened sink false } : Handles).mark i sink).Tidy := by
  have hclosed : ∀ k, k ≠ sink → Function.update h.closed sink true k = h.closed k :=
    fun k e => Function.update_of_ne e _ _
  have hopened : ∀ k, k ≠ sink → Function.update h.opened sink false k = h.opened k :=
    fun k e => Function.update_of_ne e _ _
  refine ⟨⟨fun k hk => ?_, fun x hx => ?_⟩, fun k hk => ?_⟩
  · change Function.update h.closed sink true k = false at hk
    show Function.update h.opened sink false k = true
    by_cases e : k = sink
    · subst e
      simp at hk
    · rw [hopened k e]
      exact ht.opened k (by rwa [hclosed k e] at hk)
  · show Function.update h.closed sink true x.2 = true ∧
      Function.update h.opened sink false x.2 = false
    by_cases e : x.2 = sink
    · simp [e]
    · rw [hclosed _ e, hopened _ e]
      rcases List.mem_cons.mp hx with rfl | hx
      · exact absurd rfl e
      · exact ht.ends x hx
  · change Function.update h.closed sink true k = true at hk
    show Function.update h.opened sink false k = false
    by_cases e : k = sink
    · simp [e]
    · rw [hopened k e]
      exact ht.closed k (by rwa [hclosed k e] at hk)

end Handles

variable [PyRuntime]

/-- Appends and closes on the sinks of a file. -/
def handlesMonitor (kind : StreamKind) : Monitor streamSig PyError Unit Call Handles (List Nat) where
  prog := kind.prog
  sem i c := { step := Handles.step i c.sink, pre := Handles.mayUse c.sink }
  onAcquire _ _ h := h
  view := Handles.ended

/-- A `close` that has ended has found or left its sink closed. -/
def LeftClosed (c : Call) (_ : Except PyError Unit) (v : List Nat) : Prop :=
  ∀ sink, c = .close sink → sink ∈ v

section

variable {kind : StreamKind} {i : Nat} {c : Call} {h : Handles}

/-- `write_completely` uses an open descriptor. -/
theorem wp_writeCompletely_handles {data : Bytes} {doFsync : Bool} (hs : h.Settled)
    (hopen : h.opened c.sink = true) :
    (writeCompletely data doFsync).wp
      ((handlesMonitor kind).localSem Handles.Tidy Handles.Settled i c)
      ((handlesMonitor kind).holding i h) fun _ t => t = (handlesMonitor kind).holding i h := by
  have kept : ∀ {o r t}, ((handlesMonitor kind).localSem Handles.Tidy Handles.Settled i c).step
      ((handlesMonitor kind).holding i h) (.act (.osWrite o)) r t →
        t = (handlesMonitor kind).holding i h := by
    rintro o r t ⟨p, p', hp, hstep, rfl⟩
    cases hp
    rw [show p' = h from hstep]
    rfl
  rw [writeCompletely, Prog.wp_bind]
  refine Prog.wp_mono (wp_writeLoop (A := fun _ t => t = (handlesMonitor kind).holding i h)
    (Q := fun _ t => t = (handlesMonitor kind).holding i h) ?_ ?_ ?_ ?_ ?_ (by omega) rfl) ?_
  · rintro n _ - rfl
    exact ⟨h, rfl, hs, hopen⟩
  · rintro n _ k t - rfl hstep
    split <;> exact kept hstep
  · rintro n _ t - rfl hstep
    exact kept hstep
  · rintro n _ e t - rfl hstep
    exact kept hstep
  · rintro n _ - rfl
    rfl
  · rintro res _ rfl
    cases res with
    | error e => rfl
    | ok n =>
      show Prog.wp _ (if n ≠ data.length then _ else _ : SinkProg WriteStatus) _ _
      split
      · show Prog.wp _ (if n > 0 then _ else _ : SinkProg WriteStatus) _ _
        split <;> rfl
      · show Prog.wp _ (if doFsync = true then _ else _ : SinkProg WriteStatus) _ _
        split
        · refine Monitor.wp_act_bind hs hopen ?_
          rintro r _ rfl
          cases (r : OsResult Unit) <;> rfl
        · rfl

/-- An append leaves everything tidy. -/
theorem wp_appendLine_handles {E : AppendErrors} {data : Bytes} {doFsync : Bool} {v : List Nat}
    {Q : Except PyError Unit → Monitor.Local Handles (List Nat) → Prop}
    (hQ : ∀ res v, Q res ⟨none, v⟩) :
    (appendLine E.closed E.latched E.failed doFsync data).wp
      ((handlesMonitor kind).localSem Handles.Tidy Handles.Settled i c) ⟨none, v⟩ Q := by
  refine Monitor.wp_withLock fun h ht _ => ?_
  refine Monitor.wp_act_bind ht.toSettled trivial fun r t hs => ?_
  rcases Handles.found hs with ⟨rfl, hc, rfl⟩ | ⟨rfl, hc, rfl⟩
  · exact ⟨_, rfl, ht.mark hc i, hQ _ _⟩
  · refine Monitor.wp_act_bind ht.toSettled trivial ?_
    rintro r _ ⟨-, rfl⟩
    cases (r : Bool) with
    | true => exact ⟨_, rfl, ht, hQ _ _⟩
    | false =>
      refine (Prog.wp_bind _ _ _ _).mpr (Prog.wp_mono
        (wp_writeCompletely_handles ht.toSettled (ht.opened _ hc)) ?_)
      rintro res _ rfl
      cases res with
      | error e => exact ⟨_, rfl, ht, hQ _ _⟩
      | ok status =>
        cases status with
        | WRITE_COMPLETE => exact ⟨_, rfl, ht, hQ _ _⟩
        | WRITE_NOTHING => exact ⟨_, rfl, ht, hQ _ _⟩
        | WRITE_SYNC_FAILED => exact ⟨_, rfl, ht, hQ _ _⟩
        | WRITE_PARTIAL =>
          refine Monitor.wp_act_bind ht.toSettled trivial ?_
          rintro _ _ rfl
          exact ⟨_, rfl, ht.latch, hQ _ _⟩

/-- A `close` leaves everything tidy, and its sink closed. -/
theorem wp_closeSink_handles {failed : PyError} {v : List Nat}
    {Q : Except PyError Unit → Monitor.Local Handles (List Nat) → Prop}
    (hQ : ∀ res v, c.sink ∈ v → Q res ⟨none, v⟩) :
    (closeSink failed).wp ((handlesMonitor kind).localSem Handles.Tidy Handles.Settled i c)
      ⟨none, v⟩ Q := by
  refine Monitor.wp_withLock fun h ht _ => ?_
  refine Monitor.wp_act_bind ht.toSettled trivial fun r t hs => ?_
  rcases Handles.found hs with ⟨rfl, hc, rfl⟩ | ⟨rfl, hc, rfl⟩
  · exact ⟨_, rfl, ht.mark hc i, hQ _ _ (Handles.mem_ended_mark _ _ _)⟩
  · refine Monitor.wp_act_bind ht.toSettled trivial ?_
    rintro _ _ rfl
    refine Monitor.wp_act_bind (ht.setClosed c.sink) (ht.opened _ hc) ?_
    rintro r _ rfl
    cases (r : OsResult Unit) <;>
      exact ⟨_, rfl, ht.osClose i c.sink, hQ _ _ (Handles.mem_ended_mark _ _ _)⟩

end

/-- Each call by itself uses its descriptor as it may. -/
theorem handles_safe (kind : StreamKind) :
    (handlesMonitor kind).Safe Handles.Tidy Handles.Settled LeftClosed [] where
  weaken _ h := h.toSettled
  frame hs hij := Handles.ended_step hs hij
  frame_acquire _ := rfl
  call i c := by
    cases c with
    | close sink =>
      show (kind.prog _).wp _ _ _
      rw [prog_close]
      exact wp_closeSink_handles fun _ v hv => ⟨rfl, by rintro _ ⟨⟩; exact hv⟩
    | write sink record =>
      show (kind.prog _).wp _ _ _
      rw [prog_write]
      cases kind.encodeLine record with
      | error e => exact ⟨rfl, by rintro _ ⟨⟩⟩
      | ok line => exact wp_appendLine_handles fun _ _ => ⟨rfl, by rintro _ ⟨⟩⟩

/-- Sinks that were constructed. -/
def Handles.fresh : Handles := ⟨fun _ => false, fun _ => true, false, []⟩

omit [PyRuntime] in
theorem Handles.fresh_tidy : Handles.fresh.Tidy :=
  ⟨⟨fun _ _ => rfl, List.forall_mem_nil _⟩, by rintro k ⟨⟩⟩

variable {kind : StreamKind} {cfg : Config (lockSig streamSig) PyError Unit Call (Locked Handles)}

/-- **Nothing is done with a closed descriptor.** In every interleaving of appends and closes on
the sinks of a file, whatever calls of the operating system return or raise: where a call is
about to write, sync or close, the descriptor of its sink is open. When a `close` has ended,
however it ended, the descriptor is closed. -/
theorem descriptor_live (h : (handlesMonitor kind).system.Reachable ⟨none, .fresh⟩ cfg) :
    (∀ (i : Nat) (c : Call) (o : StreamOp) (k : streamSig.Ret o → SinkProg Unit),
      cfg.calls[i]? = some (c, .op (S := lockSig streamSig) (.act o) k) →
        Handles.mayUse c.sink cfg.shared.payload o) ∧
    ∀ i sink res, cfg.Ended i (.close sink) res →
      cfg.shared.payload.closed sink = true ∧ cfg.shared.payload.opened sink = false := by
  have hview : ∀ i, (handlesMonitor kind).view i .fresh = [] := fun _ => rfl
  refine ⟨fun i c o k hi => ?_, fun i sink res hended => ?_⟩
  · exact (Monitor.reachable_pre (handles_safe kind) Handles.fresh_tidy hview h hi).2.2
  · have hpost := Monitor.reachable_ended (handles_safe kind) Handles.fresh_tidy hview h hended
    obtain ⟨x, hx, hsink⟩ := List.mem_map.mp (hpost sink rfl)
    have hsettled := Monitor.reachable_always (handles_safe kind) Handles.fresh_tidy hview h
    rw [← hsink]
    exact hsettled.ends x (List.mem_filter.mp hx).1

omit [PyRuntime] in
/-- A sink is closed, where `os.close` fails. -/
theorem descriptor_live_closed : ∃ p : Handles, p.closed 0 = true ∧ p.opened 0 = false := by
  let _ := PyRuntime.plain
  let left : Handles := { Handles.fresh with
    closed := Function.update Handles.fresh.closed 0 true
    opened := Function.update Handles.fresh.opened 0 false }.mark 0 0
  obtain ⟨q, hprog, hruns⟩ : ∃ q, StreamKind.audit.prog (.close 0) = Prog.withLock q ∧
      q.Runs ((handlesMonitor .audit).inside 0 (.close 0)) .fresh
        (.error (persistenceError "closing the audit sink failed")) left := by
    refine ⟨_, rfl, .op (r := false) (t := Handles.fresh) ⟨rfl, rfl⟩ ?_⟩
    show Prog.Runs _ (Prog.op (S := lockSig streamSig) (.act .setClosed) _) _ _ _
    refine .op (r := ()) rfl ?_
    show Prog.Runs _ (Prog.op (S := lockSig streamSig) (.act .osClose) _) _ _ _
    exact .op (r := OsResult.osError) rfl .throw
  have hcall := Monitor.runs_withLock (X := handlesMonitor .audit) hruns
  rw [← hprog] at hcall
  have hreach : (handlesMonitor .audit).system.Reachable ⟨none, .fresh⟩ ⟨⟨none, left⟩,
      [] ++ [(.close 0, .ended (.error (persistenceError "closing the audit sink failed")))]⟩ :=
    System.Reachable.call .refl trivial hcall
  exact ⟨left, (descriptor_live hreach).2 0 0 _ ⟨_, rfl, rfl⟩⟩

end NmLogging
