import NmLogging.Sinks.Interrupt

/-!
# A process and its sinks

The sinks of one process and the files they append to. A file is told apart by its
place in `Process.files`; its identity, `(st_dev, st_ino)`, is that of no other file
that exists or is still open, but may be that of a file that is gone. The registry of
stream states (`Streams`) hands out references to shared objects, and what a
constructor does is a program over the operations of `InitOp`. `Process.perform` is
one action with what the operating system answers; `Process.Run` is a run.
-/

namespace NmLogging

/-! ## The registry with its objects -/

/-- `_STREAMS`, with the objects of its values in the order of their creation. Every
entry has an object of its own. -/
structure Streams where
  objects : List StreamState
  table : Dict Identity Nat
  own : table.values = List.range objects.length

namespace Streams

def empty : Streams := ⟨[], Dict.empty, rfl⟩

/-- `register`: the registry afterwards and the reference to the shared state. -/
def register (S : Streams) (id : Identity) (kind : StreamKind) : Except PyError (Streams × Nat) :=
  match h : S.table.get? id with
  | none => .ok (
      { objects := S.objects ++ [.init kind]
        table := S.table.set id S.objects.length
        own := by
          rw [Dict.values, Dict.entries_set_of_notMem (Dict.get?_eq_none.mp h), List.map_append,
            List.length_append, List.range_add]
          exact congrArg (· ++ [S.objects.length]) S.own }, S.objects.length)
  | some ref =>
    if (S.objects[ref]?.map StreamState.streamKind) ≠ some kind then
      .error (configurationError
        "a sink of a different kind is already registered for this file identity")
    else .ok (S, ref)

/-- The states change their latch only. -/
def setLatch (S : Streams) (ref : Nat) (latched : Bool) : Streams where
  objects := S.objects.modify ref fun state => { state with latched := latched }
  table := S.table
  own := by rw [List.length_modify]; exact S.own

/-- The state of an identity. -/
def stateOf (S : Streams) (id : Identity) : Option StreamState :=
  S.table.get? id >>= fun ref => S.objects[ref]?

variable {S S' : Streams} {id id' : Identity} {kind : StreamKind} {ref : Nat}

theorem lt_of_get? (h : S.table.get? id = some ref) : ref < S.objects.length := by
  have hm : ref ∈ S.table.values := List.mem_map_of_mem (f := Prod.snd) (Dict.get?_eq_some.mp h)
  rw [S.own] at hm
  exact List.mem_range.mp hm

/-- A registration creates a state or finds one of its kind. -/
theorem register_ok (h : S.register id kind = .ok (S', ref)) :
    (S.table.get? id = none ∧ ref = S.objects.length ∧ S'.objects = S.objects ++ [.init kind] ∧
      S'.table = S.table.set id ref) ∨
    (S' = S ∧ S.table.get? id = some ref ∧
      S.objects[ref]?.map StreamState.streamKind = some kind) := by
  unfold register at h
  split at h
  · rename_i hnone
    cases h
    exact .inl ⟨hnone, rfl, rfl, rfl⟩
  · rename_i ref' hsome
    split at h
    · cases h
    · rename_i hkind
      cases h
      exact .inr ⟨rfl, hsome, not_not.mp hkind⟩

/-- It fails on a state of the other kind. -/
theorem register_error {e : PyError} (h : S.register id kind = .error e) :
    ∃ ref, S.table.get? id = some ref ∧
      S.objects[ref]?.map StreamState.streamKind ≠ some kind := by
  unfold register at h
  split at h
  · cases h
  · rename_i ref hsome
    split at h
    · exact ⟨ref, hsome, ‹_›⟩
    · cases h

/-- Two identities do not share a state. -/
theorem get?_inj (h : S.table.get? id = some ref) (h' : S.table.get? id' = some ref) : id = id' := by
  have hnodup : S.table.values.Nodup := by rw [S.own]; exact List.nodup_range
  have := List.inj_on_of_nodup_map hnodup (Dict.get?_eq_some.mp h) (Dict.get?_eq_some.mp h') rfl
  exact congrArg Prod.fst this

end Streams

/-! ## Constructors -/

/-- What a constructor does; the directory is that of the path. A descriptor is the
place of its file. -/
inductive InitOp where
  | osOpen
  | osFstat (fd : Nat)
  | osOpenDirectory
  | osFsyncDirectory
  | osCloseDirectory
  | register (id : Identity) (kind : StreamKind)
  | osClose (fd : Nat)

def initSig : Sig where
  Op := InitOp
  Ret
    | .osOpen => Except PyError Nat
    | .osFstat _ => Except PyError Identity
    | .osOpenDirectory => Except PyError Unit
    | .osFsyncDirectory => Except PyError Unit
    | .osCloseDirectory => Except PyError Unit
    | .register _ _ => Except PyError Nat
    | .osClose _ => Except PyError Unit

/-- What a constructor runs. -/
abbrev InitProg := Prog initSig PyError

def osOpen : InitProg Nat := .op .osOpen .ofExcept
def osOpenDirectory : InitProg Unit := .op .osOpenDirectory .ofExcept
def osFsyncDirectory : InitProg Unit := .op .osFsyncDirectory .ofExcept
def osCloseDirectory : InitProg Unit := .op .osCloseDirectory .ofExcept
def registerStream (id : Identity) (kind : StreamKind) : InitProg Nat :=
  .op (.register id kind) .ofExcept
def osCloseFile (fd : Nat) : InitProg Unit := .op (.osClose fd) .ofExcept

/-- `identity`. -/
def identity (fd : Nat) : InitProg Identity := .op (.osFstat fd) .ofExcept

/-- `JsonlSink.__init__`: the descriptor and the state of the sink. -/
def JsonlSink.init : InitProg (Nat × Nat) :=
  osOpen.elim
    (fun fd => (do
      let fileIdentity ← identity fd
      let state ← registerStream fileIdentity .operational
      return (fd, state)).elim .ret fun e => do
        osCloseFile fd
        .throw e)
    fun e => if e.isA .osError then
      .throw (sinkError "could not open the operational sink target") else .throw e

/-- `_fsync_directory`. -/
def fsyncDirectory : InitProg Unit :=
  osOpenDirectory.elim
    (fun _ => (osFsyncDirectory.tryCatch fun e => if e.isA .osError then
        .throw (configurationError "could not fsync the audit directory") else .throw e).elim
      (fun _ => osCloseDirectory)
      fun e => do
        osCloseDirectory
        .throw e)
    fun e => if e.isA .osError then
      .throw (configurationError "could not open the audit directory for durability") else .throw e

/-- `JsonlAuditSink.__init__`: the descriptor and the state of the sink. -/
def JsonlAuditSink.init : InitProg (Nat × Nat) :=
  osOpen.elim
    (fun fd => (do
      let fileIdentity ← identity fd
      fsyncDirectory
      let state ← registerStream fileIdentity .audit
      return (fd, state)).elim .ret fun e => do
        osCloseFile fd
        if e.isA .osError then .throw (configurationError "could not stat the audit sink target")
        else .throw e)
    fun e => if e.isA .osError then
      .throw (persistenceError "could not open the audit sink target") else .throw e

/-- The constructor of the sinks of a kind. -/
def StreamKind.init : StreamKind → InitProg (Nat × Nat)
  | .operational => JsonlSink.init
  | .audit => JsonlAuditSink.init

/-! ## The process -/

/-- A file: its identity, what it held when it was first seen, what it holds, and
whether a path leads to it. -/
structure OsFile where
  ident : Identity
  origin : Bytes
  content : Bytes
  linked : Bool

/-- A sink: the file of its descriptor, the reference to its `_state`, and whether
its descriptor is open. -/
structure SinkObject where
  kind : StreamKind
  file : Nat
  state : Nat
  closed : Bool
  held : Bool

structure Process where
  files : List OsFile
  streams : Streams
  sinks : List SinkObject

/-- Where the path of a constructor leads: to a file, or to a new one. -/
inductive Target where
  | existing (file : Nat)
  | new (ident : Identity)

/-- What the operating system raises in a constructor. -/
structure InitOs where
  openFile : Option PyError
  fstat : Option PyError
  openDirectory : Option PyError
  fsyncDirectory : Option PyError
  closeDirectory : Option PyError
  closeFile : Option PyError

/-- An action in the process, or on its files, with what the operating system answers. -/
inductive Action where
  | construct (kind : StreamKind) (target : Target) (os : InitOs)
  | append (sink : Nat) (record : Record) (os : OsBehaviour)
  | close (sink : Nat) (error : Option PyError)
  | unlink (file : Nat)
  | create (ident : Identity) (content : Bytes)

/-- Every call but the closing of the descriptor succeeds. -/
structure InitOs.Succeeds (os : InitOs) : Prop where
  openFile : os.openFile = none
  fstat : os.fstat = none
  openDirectory : os.openDirectory = none
  fsyncDirectory : os.fsyncDirectory = none
  closeDirectory : os.closeDirectory = none

namespace Process

/-- What a call of the operating system comes to. -/
def answered {α : Type} (a : α) : Option PyError → Except PyError α
  | none => .ok a
  | some e => .error e

/-- The process after `os.open` of the path, and the file of the descriptor. -/
def opened (P : Process) : Target → Nat × Process
  | .existing file => (file, P)
  | .new ident => (P.files.length, { P with files := P.files ++ [⟨ident, [], [], true⟩] })

/-- The answers to a constructor. -/
def initAnswer (target : Target) (os : InitOs) (P : Process) :
    (o : InitOp) → initSig.Ret o × Process
  | .osOpen =>
    match os.openFile with
    | some e => (.error e, P)
    | none => (.ok (P.opened target).1, (P.opened target).2)
  | .osFstat fd =>
    match P.files[fd]? with
    | none => (.error ⟨OSError, lit "Bad file descriptor"⟩, P)
    | some f => (answered f.ident os.fstat, P)
  | .osOpenDirectory => (answered () os.openDirectory, P)
  | .osFsyncDirectory => (answered () os.fsyncDirectory, P)
  | .osCloseDirectory => (answered () os.closeDirectory, P)
  | .register id kind =>
    match P.streams.register id kind with
    | .error e => (.error e, P)
    | .ok (streams, ref) => (.ok ref, { P with streams := streams })
  | .osClose _ => (answered () os.closeFile, P)

/-- A constructor. -/
def construct (P : Process) (kind : StreamKind) (target : Target) (os : InitOs) :
    Except PyError Unit × Process :=
  match kind.init.run (initAnswer target os) P with
  | (.ok (fd, state), P') => (.ok (), { P' with sinks := P'.sinks ++ [⟨kind, fd, state, false, true⟩] })
  | (.error e, P') => (.error e, P')

/-- The file of a sink with the latch of its state, as its appends see them. -/
def streamOf (P : Process) (s : SinkObject) : Stream where
  content := (P.files[s.file]?.map OsFile.content).getD []
  durable := 0
  latched := (P.streams.objects[s.state]?.map StreamState.latched).getD false
  closed := fun _ => s.closed
  log := []

variable [PyRuntime]

/-- An append through a sink. -/
def appendThrough (P : Process) (k : Nat) (s : SinkObject) (record : Record) (os : OsBehaviour) :
    Except PyError Unit × Process :=
  let r := SinkAppend.run ⟨s.kind, k, record, os⟩ 0 (P.streamOf s)
  (r.1,
    { P with
      files := P.files.modify s.file fun f => { f with content := r.2.content }
      streams := P.streams.setLatch s.state r.2.latched })

omit [PyRuntime] in
/-- `close` of a sink: the first one closes the descriptor. -/
def closeThrough (P : Process) (k : Nat) (s : SinkObject) (error : Option PyError) :
    Except PyError Unit × Process :=
  if s.closed then (.ok (), P)
  else
    (match error with
      | none => .ok ()
      | some e => .error (if e.isA .osError then s.kind.closeError else e),
      { P with sinks := P.sinks.set k { s with closed := true, held := error.isSome } })

/-- An action: how it ends, and the process afterwards. -/
def perform (P : Process) : Action → Except PyError Unit × Process
  | .construct kind target os => P.construct kind target os
  | .append k record os =>
    match P.sinks[k]? with
    | none => (.ok (), P)
    | some s => P.appendThrough k s record os
  | .close k error =>
    match P.sinks[k]? with
    | none => (.ok (), P)
    | some s => P.closeThrough k s error
  | .unlink file => (.ok (), { P with files := P.files.modify file fun f => { f with linked := false } })
  | .create ident content => (.ok (), { P with files := P.files ++ [⟨ident, content, content, true⟩] })

omit [PyRuntime] in
/-- Whether a file exists or is still open. -/
def Alive (P : Process) (n : Nat) : Prop :=
  (∃ f, P.files[n]? = some f ∧ f.linked = true) ∨
    ∃ s ∈ P.sinks, s.file = n ∧ s.held = true

/-- No file that exists or is still open has the identity. -/
def Unused (P : Process) (ident : Identity) : Prop :=
  ∀ n f, P.files[n]? = some f → P.Alive n → f.ident ≠ ident

/-- What the file system allows: a path leads to a file that exists, and a new file has an
identity that is not in use. -/
def Allowed (P : Process) : Action → Prop
  | .construct _ (.existing n) _ => ∃ f, P.files[n]? = some f ∧ f.linked = true
  | .construct _ (.new ident) _ => P.Unused ident
  | .create ident _ => P.Unused ident
  | _ => True

/-- A process before its first sink: the files that exist have identities of their own. -/
structure Start (P : Process) : Prop where
  streams : P.streams = .empty
  sinks : P.sinks = []
  origin : ∀ f ∈ P.files, f.content = f.origin
  unique : ∀ (m n : Nat) (f g : OsFile), P.files[m]? = some f → P.files[n]? = some g → f.ident = g.ident → m = n

/-- The actions of a run, each allowed and meeting `C`. -/
inductive Run (C : Process → Action → Prop) (P₀ : Process) : List Action → Process → Prop where
  | nil : Run C P₀ [] P₀
  | snoc {actions : List Action} {P : Process} {a : Action} :
    Run C P₀ actions P → P.Allowed a → C P a → Run C P₀ (actions ++ [a]) (P.perform a).2

/-! ## What an action does -/

section

variable {P : Process} {kind : StreamKind} {target : Target} {os : InitOs}

/-- The operations of a constructor with what the operating system answers. -/
abbrev initSem (target : Target) (os : InitOs) : Semantics initSig Process :=
  Prog.answering (initAnswer target os)

omit [PyRuntime] in
/-- `os.close` of a descriptor, before an exception is raised again. -/
theorem wp_osCloseFile {fd : Nat} {α : Type} {p : InitProg α}
    {Q : Except PyError α → Process → Prop} (herr : ∀ e, Q (.error e) P)
    (hp : p.wp (initSem target os) P Q) :
    (osCloseFile fd >>= fun _ => p).wp (initSem target os) P Q := by
  refine (Prog.wp_bind _ _ _ _).mpr ⟨trivial, ?_⟩
  rintro r _ ⟨⟩
  refine Prog.wp_ofExcept.mpr ?_
  cases os.closeFile with
  | none => exact hp
  | some e => exact herr e

omit [PyRuntime] in
theorem wp_osCloseDirectory {α : Type} {p : InitProg α} {Q : Except PyError α → Process → Prop}
    (herr : ∀ e, os.closeDirectory = some e → Q (.error e) P)
    (hp : p.wp (initSem target os) P Q) :
    (osCloseDirectory >>= fun _ => p).wp (initSem target os) P Q := by
  refine (Prog.wp_bind _ _ _ _).mpr ⟨trivial, ?_⟩
  rintro r _ ⟨⟩
  refine Prog.wp_ofExcept.mpr ?_
  cases hc : os.closeDirectory with
  | none => exact hp
  | some e => exact herr e hc

omit [PyRuntime] in
theorem wp_fsyncDirectory :
    fsyncDirectory.wp (initSem target os) P fun res P' =>
      P' = P ∧ (os.Succeeds → res = .ok ()) := by
  refine (Prog.wp_elim _ _ _ _ _).mpr ⟨trivial, ?_⟩
  rintro r _ ⟨⟩
  refine Prog.wp_ofExcept.mpr ?_
  cases hopen : os.openDirectory with
  | some e =>
    have hfail : ¬os.Succeeds := fun h => nomatch hopen.symm.trans h.openDirectory
    show (if e.isA .osError then _ else Prog.throw e : InitProg Unit).wp _ _ _
    split <;> exact ⟨rfl, fun h => absurd h hfail⟩
  | none =>
    refine (Prog.wp_elim _ _ _ _ _).mpr ((Prog.wp_elim _ _ _ _ _).mpr ⟨trivial, ?_⟩)
    rintro r _ ⟨⟩
    refine Prog.wp_ofExcept.mpr ?_
    cases hsync : os.fsyncDirectory with
    | none =>
      refine ⟨trivial, ?_⟩
      rintro r _ ⟨⟩
      refine Prog.wp_ofExcept.mpr ⟨rfl, fun h => ?_⟩
      rw [h.closeDirectory]
      rfl
    | some e =>
      have hfail : ¬os.Succeeds := fun h => nomatch hsync.symm.trans h.fsyncDirectory
      show (if e.isA .osError then _ else Prog.throw e : InitProg Unit).wp _ _ _
      split <;> exact wp_osCloseDirectory (fun _ _ => ⟨rfl, fun h => absurd h hfail⟩)
        ⟨rfl, fun h => absurd h hfail⟩

/-- A constructor with an open descriptor raises and changes nothing, or registers the stream
of its file. It does not raise where every call succeeds and the stream can be registered. -/
def Registers (P : Process) (kind : StreamKind) (os : InitOs) (fd : Nat)
    (res : Except PyError (Nat × Nat)) (P' : Process) : Prop :=
  (∃ e, res = .error e ∧ P' = P ∧ (os.Succeeds → ∀ f, P.files[fd]? = some f →
    ∃ e, P.streams.register f.ident kind = .error e)) ∨
  ∃ f S ref, P.files[fd]? = some f ∧ P.streams.register f.ident kind = .ok (S, ref) ∧
    res = .ok (fd, ref) ∧ P' = { P with streams := S }

omit [PyRuntime] in
/-- What a constructor tries once it has a descriptor, with what it does between the
identity and the registration. -/
theorem wp_registers {fd : Nat} {before : InitProg Unit}
    (hbefore : before.wp (initSem target os) P fun res P' =>
      P' = P ∧ (os.Succeeds → res = .ok ())) :
    (do
      let fileIdentity ← identity fd
      before
      let state ← registerStream fileIdentity kind
      return (fd, state) : InitProg (Nat × Nat)).wp (initSem target os) P
        (P.Registers kind os fd) := by
  refine (Prog.wp_bind _ _ _ _).mpr ⟨trivial, ?_⟩
  intro r P' hs
  have hs : (match P.files[fd]? with
    | none => ((.error ⟨OSError, lit "Bad file descriptor"⟩, P) : Except PyError Identity × Process)
    | some f => (answered f.ident os.fstat, P)) = (r, P') := hs
  refine Prog.wp_ofExcept.mpr ?_
  cases hf : P.files[fd]? with
  | none =>
    rw [hf] at hs
    cases hs
    exact .inl ⟨_, rfl, rfl, fun _ f h => nomatch hf.symm.trans h⟩
  | some f =>
    rw [hf] at hs
    cases hs
    cases hstat : os.fstat with
    | some e =>
      exact .inl ⟨e, rfl, rfl, fun h => nomatch hstat.symm.trans h.fstat⟩
    | none =>
      refine (Prog.wp_bind _ _ _ _).mpr (Prog.wp_mono hbefore ?_)
      rintro (e | ⟨⟩) P' ⟨hP, hok⟩ <;> subst P'
      · exact .inl ⟨e, rfl, rfl, fun h => nomatch hok h⟩
      · refine (Prog.wp_bind _ _ _ _).mpr ⟨trivial, fun r P' hs => ?_⟩
        have hs : (match P.streams.register f.ident kind with
          | .error e => ((.error e, P) : Except PyError Nat × Process)
          | .ok (streams, ref) => (.ok ref, { P with streams := streams })) = (r, P') := hs
        refine Prog.wp_ofExcept.mpr ?_
        cases hreg : P.streams.register f.ident kind with
        | error e =>
          rw [hreg] at hs
          cases hs
          refine .inl ⟨e, rfl, rfl, fun _ f' hf' => ?_⟩
          cases hf.symm.trans hf'
          exact ⟨e, hreg⟩
        | ok a =>
          rw [hreg] at hs
          cases hs
          exact .inr ⟨f, a.1, a.2, hf, hreg, rfl, rfl⟩

omit [PyRuntime] in
/-- A constructor: `os.open` raises, or it goes on with a descriptor. -/
theorem wp_init (kind : StreamKind) :
    kind.init.wp (initSem target os) P fun res P' =>
      (∃ e, res = .error e ∧ P' = P ∧ ¬os.Succeeds) ∨
        (P.opened target).2.Registers kind os (P.opened target).1 res P' := by
  have opening : ∀ {ok : Nat → InitProg (Nat × Nat)} {err : PyError → InitProg (Nat × Nat)},
      (∀ e, ∃ e', err e = .throw e') →
      (ok (P.opened target).1).wp (initSem target os) (P.opened target).2
        ((P.opened target).2.Registers kind os (P.opened target).1) →
      (osOpen.elim ok err).wp (initSem target os) P fun res P' =>
        (∃ e, res = .error e ∧ P' = P ∧ ¬os.Succeeds) ∨
          (P.opened target).2.Registers kind os (P.opened target).1 res P' := by
    intro ok err herr hok
    refine (Prog.wp_elim _ _ _ _ _).mpr ⟨trivial, fun r P' hs => ?_⟩
    have hs : (match os.openFile with
      | some e => ((.error e, P) : Except PyError Nat × Process)
      | none => (.ok (P.opened target).1, (P.opened target).2)) = (r, P') := hs
    refine Prog.wp_ofExcept.mpr ?_
    cases hopen : os.openFile with
    | some e =>
      rw [hopen] at hs
      cases hs
      obtain ⟨e', he'⟩ := herr e
      show (err e).wp _ _ _
      rw [he']
      exact .inl ⟨e', rfl, rfl, fun h => nomatch hopen.symm.trans h.openFile⟩
    | none =>
      rw [hopen] at hs
      cases hs
      exact Prog.wp_mono hok fun _ _ h => .inr h
  -- what the handler raises says no more than what it handles
  have handled : ∀ {P : Process} {fd : Nat} {p : InitProg (Nat × Nat)}
      {h : PyError → InitProg (Nat × Nat)}, (∀ e, ∃ e', h e = .throw e') →
      p.wp (initSem target os) P (P.Registers kind os fd) →
      (p.elim .ret fun e => do
        osCloseFile fd
        h e).wp (initSem target os) P (P.Registers kind os fd) := by
    intro P fd p h hh hp
    refine (Prog.wp_elim _ _ _ _ _).mpr (Prog.wp_mono hp ?_)
    rintro res P' (⟨e, rfl, rfl, hreg⟩ | ⟨f, S, ref, hf, hreg, rfl, rfl⟩)
    · obtain ⟨e', he'⟩ := hh e
      refine wp_osCloseFile (fun e => .inl ⟨e, rfl, rfl, hreg⟩) ?_
      rw [he']
      exact .inl ⟨e', rfl, rfl, hreg⟩
    · exact .inr ⟨f, S, ref, hf, hreg, rfl, rfl⟩
  have choice : ∀ {b : Bool} {e e' : PyError}, ∃ e'', (if b then .throw e else .throw e' :
      InitProg (Nat × Nat)) = .throw e'' := by
    intro b e e'
    cases b
    · exact ⟨e', rfl⟩
    · exact ⟨e, rfl⟩
  cases kind with
  | operational =>
    refine opening (fun e => choice) (handled (fun e => ⟨e, rfl⟩) ?_)
    exact @wp_registers _ .operational target os _ (.ret ()) ⟨rfl, fun _ => rfl⟩
  | audit => exact opening (fun e => choice) (handled (fun e => choice) (wp_registers wp_fsyncDirectory))

omit [PyRuntime] in
/-- What a constructor does: it raises before it has a descriptor, or after, or it registers
its stream and makes a sink. -/
theorem construct_cases (P : Process) (kind : StreamKind) (target : Target) (os : InitOs) :
    (∃ e, P.construct kind target os = (.error e, P) ∧ ¬os.Succeeds) ∨
    (∃ e, P.construct kind target os = (.error e, (P.opened target).2) ∧ (os.Succeeds →
      ∀ f, (P.opened target).2.files[(P.opened target).1]? = some f →
        ∃ e, (P.opened target).2.streams.register f.ident kind = .error e)) ∨
    ∃ f S ref, (P.opened target).2.files[(P.opened target).1]? = some f ∧
      (P.opened target).2.streams.register f.ident kind = .ok (S, ref) ∧
      P.construct kind target os = (.ok (), { (P.opened target).2 with
        streams := S
        sinks := (P.opened target).2.sinks ++
          [⟨kind, (P.opened target).1, ref, false, true⟩] }) := by
  have h := Prog.post_run (@wp_init P target os kind)
  unfold construct
  generalize kind.init.run (initAnswer target os) P = r at h
  obtain ⟨res, P'⟩ := r
  rcases h with ⟨e, rfl, rfl, hos⟩ | ⟨e, rfl, rfl, hreg⟩ | ⟨f, S, ref, hf, hreg, rfl, rfl⟩
  · exact .inl ⟨e, rfl, hos⟩
  · exact .inr (.inl ⟨e, rfl, hreg⟩)
  · exact .inr (.inr ⟨f, S, ref, hf, hreg, rfl⟩)

/-- What an action does to the process. -/
inductive Did (P : Process) : Action → Process → Prop where
  | nothing {a : Action} : Did P a P
  | opened {kind : StreamKind} {target : Target} {os : InitOs} :
    Did P (.construct kind target os) (P.opened target).2
  | constructed {kind : StreamKind} {target : Target} {os : InitOs} {f : OsFile} {S : Streams}
      {ref : Nat} (hf : (P.opened target).2.files[(P.opened target).1]? = some f)
      (hreg : P.streams.register f.ident kind = .ok (S, ref)) :
    Did P (.construct kind target os) { (P.opened target).2 with
      streams := S
      sinks := P.sinks ++ [⟨kind, (P.opened target).1, ref, false, true⟩] }
  | appended {k : Nat} {s : SinkObject} {record : Record} {os : OsBehaviour} {q : Stream}
      (hs : P.sinks[k]? = some s)
      (heff : (SinkAppend.mk s.kind k record os).Effect (P.streamOf s) q) :
    Did P (.append k record os) { P with
      files := P.files.modify s.file fun f => { f with content := q.content }
      streams := P.streams.setLatch s.state q.latched }
  | closed {k : Nat} {s : SinkObject} {error : Option PyError} (hs : P.sinks[k]? = some s)
      (hopen : s.closed = false) :
    Did P (.close k error) { P with
      sinks := P.sinks.set k { s with closed := true, held := error.isSome } }
  | unlinked {n : Nat} :
    Did P (.unlink n) { P with files := P.files.modify n fun f => { f with linked := false } }
  | created {ident : Identity} {content : Bytes} :
    Did P (.create ident content) { P with
      files := P.files ++ [⟨ident, content, content, true⟩] }

omit [PyRuntime] in
/-- Opening a path changes neither the registry nor the sinks. -/
theorem opened_streams (P : Process) (target : Target) :
    (P.opened target).2.streams = P.streams ∧ (P.opened target).2.sinks = P.sinks := by
  cases target <;> exact ⟨rfl, rfl⟩

theorem perform_did (P : Process) (a : Action) : P.Did a (P.perform a).2 := by
  cases a with
  | construct kind target os =>
    obtain ⟨hstreams, hsinks⟩ := P.opened_streams target
    show P.Did _ (P.construct kind target os).2
    rcases P.construct_cases kind target os with ⟨e, h, -⟩ | ⟨e, h, -⟩ | ⟨f, S, ref, hf, hreg, h⟩
    · rw [h]; exact .nothing
    · rw [h]; exact .opened
    · rw [h, hsinks]
      exact .constructed hf (hstreams ▸ hreg)
  | append k record os =>
    rw [perform]
    split
    · exact .nothing
    · exact .appended ‹_› (SinkAppend.run_effect _ _ _)
  | close k error =>
    rw [perform]
    split
    · exact .nothing
    · unfold closeThrough
      split
      · exact .nothing
      · rename_i hs hopen
        exact .closed hs (Bool.eq_false_iff.mpr hopen)
  | unlink n => exact .unlinked
  | create ident content => exact .created

end

end Process

end NmLogging
