import Mathlib.Logic.Relation
import NmLogging.Reader.Jsonl

/-!
# A reader beside a writer

`JsonlReader.__iter__` as the generator that it is: it opens the file at its first `__next__`,
reads a block when what it has has no newline, and is suspended at each record that it yields.
Between two of its steps the file may be appended to. What it yields is what a reading of some
prefix of the file yields (`JsonlReader.reads_prefix`): it never mixes two states of the file,
and where it comes to its end it has read everything that was there when it began.
-/

open Relation (ReflTransGen)

namespace NmLogging

variable [PyRuntime]

/-! ## Prefixes of a file -/

/-- A reading that continues one that yielded `objs`. -/
def Reading.after (objs : List JsonObject) (r : Reading) : Reading :=
  { r with records := objs ++ r.records }

theorem readLines_append {ls : List Bytes} (h : ∀ l ∈ ls, IsLine l)
    (hobj : ∀ l ∈ ls, (lineObject l).isSome) (rest : List Bytes) (lineno offset : Nat) :
    readLines lineno offset (ls ++ rest) =
      (readLines (lineno + ls.length) (offset + ls.flatten.length) rest).after (objectsOf ls) := by
  induction ls generalizing lineno offset with
  | nil => rfl
  | cons l ls ih =>
    have hl := (h l List.mem_cons_self).getLast?
    obtain ⟨obj, hlo⟩ := Option.isSome_iff_exists.mp (hobj l List.mem_cons_self)
    have hread : readLine (lineno + 1) offset l.dropLast = .ok obj :=
      readLine_ok.mpr (lineObject_eq_some.mp hlo)
    rw [List.cons_append, readLines, if_neg (by simp [hl]), hread, objectsOf, hlo]
    simp only
    rw [ih (fun x hx => h x (List.mem_cons_of_mem _ hx))
      (fun x hx => hobj x (List.mem_cons_of_mem _ hx)), List.length_cons, List.flatten_cons,
      List.length_append, Nat.add_assoc lineno 1, Nat.add_comm 1, Nat.add_assoc offset]
    rfl

/-- What is read behind lines that are objects. -/
theorem iterate_lines_append {ls : List Bytes} (h : ∀ l ∈ ls, IsLine l)
    (hobj : ∀ l ∈ ls, (lineObject l).isSome) (f : Bytes) :
    iterate (ls.flatten ++ f) =
      (readLines ls.length ls.flatten.length (splitLines f)).after (objectsOf ls) := by
  rw [iterate, splitLines_append h, readLines_append h hobj, Nat.zero_add, Nat.zero_add]

/-- Of lines that are objects everything is read. -/
theorem iterate_lines {ls : List Bytes} (h : ∀ l ∈ ls, IsLine l)
    (hobj : ∀ l ∈ ls, (lineObject l).isSome) : iterate ls.flatten = ⟨objectsOf ls, none, false⟩ := by
  have := iterate_lines_append h hobj []
  rw [List.append_nil, splitLines_nil] at this
  rw [this, Reading.after, readLines, List.append_nil]

theorem readLines_of_error {ls : List Bytes} (h : ∀ l ∈ ls, IsLine l) {t : Bytes}
    (ht : newline ∉ t) (rest : List Bytes) {lineno offset : Nat} {e : PyError}
    (he : (readLines lineno offset (ls ++ splitLines t)).error = some e) :
    readLines lineno offset (ls ++ rest) = readLines lineno offset (ls ++ splitLines t) := by
  induction ls generalizing lineno offset with
  | nil =>
    have hnone := (readLines_of_objects (List.forall_mem_nil _) ht (List.forall_mem_nil _)
      lineno offset).1
    cases hnone.symm.trans he
  | cons l ls ih =>
    have hl := (h l List.mem_cons_self).getLast?
    rw [List.cons_append, readLines, if_neg (by simp [hl])] at he ⊢
    rw [List.cons_append, readLines, if_neg (by simp [hl])]
    cases hline : readLine (lineno + 1) offset l.dropLast with
    | error e' => rfl
    | ok record =>
      rw [hline] at he
      simp only
      rw [ih (fun x hx => h x (List.mem_cons_of_mem _ hx)) he]

/-- A reading that an exception ends is the same, whatever follows. -/
theorem iterate_of_error {xs ys : Bytes} {e : PyError} (he : (iterate xs).error = some e)
    (hp : xs <+: ys) : iterate ys = iterate xs := by
  obtain ⟨ls, t, hls, ht, rfl⟩ := exists_lines xs
  obtain ⟨zs, rfl⟩ := hp
  rw [iterate, splitLines_append hls] at he
  rw [iterate, iterate, List.append_assoc, splitLines_append hls, splitLines_append hls]
  exact readLines_of_error hls ht _ he

theorem objectsOf_prefix (ls ms : List Bytes) : objectsOf ls <+: objectsOf (ls ++ ms) := by
  induction ls with
  | nil => exact List.nil_prefix
  | cons l ls ih =>
    rw [List.cons_append, objectsOf, objectsOf]
    cases lineObject l with
    | none => exact List.prefix_rfl
    | some obj => exact List.prefix_cons_inj obj |>.mpr ih

/-- What a prefix of a file yields comes first in what the file yields. -/
theorem records_isPrefix {xs ys : Bytes} (hp : xs <+: ys) :
    (iterate xs).records <+: (iterate ys).records := by
  obtain ⟨ls, t, hls, ht, rfl⟩ := exists_lines ys
  obtain ⟨t', ht', htake⟩ := take_lines hls ht xs.length
  rw [← List.prefix_iff_eq_take.mp hp] at htake
  have hfirst : ∀ l ∈ ls.take (linesWithin ls xs.length), IsLine l :=
    fun l hl => hls l (List.mem_of_mem_take hl)
  rw [htake, iterate_records hfirst ht', iterate_records hls ht]
  have := objectsOf_prefix (ls.take (linesWithin ls xs.length)) (ls.drop (linesWithin ls xs.length))
  rwa [List.take_append_drop] at this

/-! ## The generator -/

/-- What `open` comes to. -/
inductive Opened where
  | handle
  | missing
  | failed (e : PyError)

/-- Where an iteration stands: before its first `__next__`; in the loop, with how much of the
file the handle has read and the part of it that is not yet split; at its end; or left by an
exception of the file. -/
inductive Iteration where
  | ready
  | reading (lineno offset position : Nat) (buffer : Bytes)
  | ended (error : Option PyError)
  | failed (e : PyError)

/-- `JsonlReader`, with its iteration and what that has yielded. -/
structure JsonlReader where
  truncated : Bool
  iteration : Iteration
  yielded : List JsonObject

namespace JsonlReader

/-- `JsonlReader(path)`, iterated. -/
def init : JsonlReader := ⟨false, .ready, []⟩

/-- What stands before the loop. -/
def start : Opened → JsonlReader
  | .handle => ⟨false, .reading 0 0 0 [], []⟩
  | .missing => ⟨false, .ended none, []⟩
  | .failed e => ⟨false, .failed e, []⟩

/-- The body of the loop. At the end of the file `raw` is what is left, and may be empty. -/
def body (reader : JsonlReader) (lineno offset position : Nat) (raw rest : Bytes) : JsonlReader :=
  if raw.getLast? ≠ some newline then
    { reader with truncated := reader.truncated || raw ≠ [], iteration := .ended none }
  else
    match readLine (lineno + 1) offset raw.dropLast with
    | .error e => { reader with iteration := .ended (some e) }
    | .ok record => { reader with
        iteration := .reading (lineno + 1) (offset + raw.length) position rest
        yielded := reader.yielded ++ [record] }

/-- A step of an iteration while the file is as it is. The handle is asked for a line, and reads
blocks until it has one, or no more is there; the consumer may give up, and iterate again. -/
inductive Step (file : Option Bytes) (reader : JsonlReader) : JsonlReader → Prop where
  | opened {content : Bytes} (h : reader.iteration = .ready) (hfile : file = some content) :
    Step file reader (start .handle)
  | missing (h : reader.iteration = .ready) (hfile : file = none) : Step file reader (start .missing)
  | notOpened (e : PyError) (h : reader.iteration = .ready) : Step file reader (start (.failed e))
  | line {lineno offset position : Nat} {raw rest : Bytes}
    (h : reader.iteration = .reading lineno offset position (raw ++ rest)) (hraw : IsLine raw) :
    Step file reader (reader.body lineno offset position raw rest)
  | block {lineno offset position : Nat} {buffer bytes content : Bytes}
    (h : reader.iteration = .reading lineno offset position buffer) (hbuffer : newline ∉ buffer)
    (hfile : file = some content) (hbytes : bytes <+: content.drop position) (hne : bytes ≠ []) :
    Step file reader { reader with
      iteration := .reading lineno offset (position + bytes.length) (buffer ++ bytes) }
  | tail {lineno offset position : Nat} {buffer content : Bytes}
    (h : reader.iteration = .reading lineno offset position buffer) (hbuffer : newline ∉ buffer)
    (hfile : file = some content) (hend : content.length ≤ position) :
    Step file reader (reader.body lineno offset position buffer [])
  | notRead {lineno offset position : Nat} {buffer : Bytes} (e : PyError)
    (h : reader.iteration = .reading lineno offset position buffer) :
    Step file reader { reader with iteration := .failed e }
  | again : Step file reader { reader with iteration := .ready, yielded := [] }

/-! ## What an iteration has read -/

/-- The first `position` bytes of the file, as lines that were yielded and what is buffered. -/
structure Split (content : Bytes) (ls : List Bytes) (position : Nat) (buffer : Bytes) : Prop where
  lines : ∀ l ∈ ls, IsLine l
  objects : ∀ l ∈ ls, (lineObject l).isSome
  within : position ≤ content.length
  split : content.take position = ls.flatten ++ buffer

/-- What an iteration has come to that began when the file was at least `first`, the file now
being `content`. -/
inductive Reads (first content : Bytes) : JsonlReader → Prop where
  | ready (truncated : Bool) : Reads first content ⟨truncated, .ready, []⟩
  | reading {ls : List Bytes} {position : Nat} {buffer : Bytes}
    (h : Split content ls position buffer) :
    Reads first content
      ⟨false, .reading ls.length ls.flatten.length position buffer, objectsOf ls⟩
  | ended {k : Nat} {r : Reading} (within : k ≤ content.length)
    (reads : iterate (content.take k) = r) (fresh : r.error = none → first <+: content.take k) :
    Reads first content ⟨r.truncated, .ended r.error, r.records⟩
  | failed {k : Nat} {objs : List JsonObject} (e : PyError) (within : k ≤ content.length)
    (reads : (iterate (content.take k)).records = objs) :
    Reads first content ⟨false, .failed e, objs⟩

variable {first content content' : Bytes} {reader reader' : JsonlReader} {file : Option Bytes}
  {ls : List Bytes} {lineno offset position : Nat} {buffer raw rest bytes : Bytes}

omit [PyRuntime] in
theorem take_of_isPrefix {xs ys : Bytes} (h : xs <+: ys) {k : Nat} (hk : k ≤ xs.length) :
    ys.take k = xs.take k := by
  obtain ⟨zs, rfl⟩ := h
  exact List.take_append_of_le_length hk

namespace Split

theorem zero : Split content [] 0 [] :=
  ⟨List.forall_mem_nil _, List.forall_mem_nil _, Nat.zero_le _, rfl⟩

theorem mono (h : Split content ls position buffer) (hp : content <+: content') :
    Split content' ls position buffer :=
  ⟨h.lines, h.objects, h.within.trans hp.length_le, (take_of_isPrefix hp h.within).trans h.split⟩

/-- The lines that were yielded are the first of the file. -/
theorem take_lines (h : Split content ls position buffer) :
    content.take ls.flatten.length = ls.flatten ∧ ls.flatten.length ≤ content.length := by
  have hp : ls.flatten <+: content :=
    (List.prefix_append _ buffer).trans (h.split ▸ List.take_prefix _ _)
  exact ⟨(List.prefix_iff_eq_take.mp hp).symm, hp.length_le⟩

/-- A buffered line that is an object is yielded. -/
theorem yields (h : Split content ls position (raw ++ rest)) (hraw : IsLine raw)
    (hobj : (lineObject raw).isSome) : Split content (ls ++ [raw]) position rest := by
  refine ⟨fun l hl => ?_, fun l hl => ?_, h.within, ?_⟩
  · rcases List.mem_append.mp hl with hl | hl
    · exact h.lines l hl
    · rw [List.mem_singleton.mp hl]
      exact hraw
  · rcases List.mem_append.mp hl with hl | hl
    · exact h.objects l hl
    · rw [List.mem_singleton.mp hl]
      exact hobj
  · rw [h.split, List.flatten_append, List.flatten_singleton, List.append_assoc]

/-- A block is buffered. -/
theorem block (h : Split content ls position buffer) (hbytes : bytes <+: content.drop position) :
    Split content ls (position + bytes.length) (buffer ++ bytes) := by
  have hle := hbytes.length_le
  have hwithin := h.within
  rw [List.length_drop] at hle
  refine ⟨h.lines, h.objects, by omega, ?_⟩
  rw [List.take_add, h.split, ← List.prefix_iff_eq_take.mp hbytes, List.append_assoc]

/-- What a reading of the first `position` bytes makes of what is buffered. -/
theorem iterate_eq (h : Split content ls position buffer) :
    iterate (content.take position) =
      (readLines ls.length ls.flatten.length (splitLines buffer)).after (objectsOf ls) := by
  rw [h.split, iterate_lines_append h.lines h.objects]

end Split

/-- What has been read stays so when the file grows. -/
theorem Reads.mono (h : Reads first content reader) (hp : content <+: content') :
    Reads first content' reader := by
  cases h with
  | ready t => exact .ready t
  | reading h => exact .reading (h.mono hp)
  | ended within reads fresh =>
    rw [← take_of_isPrefix hp within] at reads fresh
    exact .ended (within.trans hp.length_le) reads fresh
  | failed e within reads =>
    rw [← take_of_isPrefix hp within] at reads
    exact .failed e (within.trans hp.length_le) reads

/-- An iteration in its loop has split what it has read. -/
theorem Reads.of_reading (h : Reads first content reader)
    (hr : reader.iteration = .reading lineno offset position buffer) :
    ∃ ls, Split content ls position buffer ∧ lineno = ls.length ∧ offset = ls.flatten.length ∧
      reader = ⟨false, .reading lineno offset position buffer, objectsOf ls⟩ := by
  cases h with
  | ready => cases hr
  | ended => cases hr
  | failed => cases hr
  | reading h => cases hr; exact ⟨_, h, rfl, rfl, rfl⟩

/-- The body of the loop, at a line. -/
theorem Reads.line (h : Split content ls position (raw ++ rest)) (hraw : IsLine raw) :
    Reads first content (body ⟨false, .reading ls.length ls.flatten.length position (raw ++ rest),
      objectsOf ls⟩ ls.length ls.flatten.length position raw rest) := by
  have hlast : ¬raw.getLast? ≠ some newline := not_not_intro hraw.getLast?
  rw [body, if_neg hlast]
  cases hline : readLine (ls.length + 1) ls.flatten.length raw.dropLast with
  | error e =>
    have hread : iterate (content.take position) = ⟨objectsOf ls, some e, false⟩ := by
      rw [h.iterate_eq, splitLines_line_append hraw, readLines, if_neg hlast, hline,
        Reading.after, List.append_nil]
    exact .ended h.within hread (by rintro ⟨⟩)
  | ok record =>
    have hobj : lineObject raw = some record := lineObject_eq_some.mpr (readLine_ok.mp hline)
    have hyields := h.yields hraw (by rw [hobj]; rfl)
    have hrecords : objectsOf ls ++ [record] = objectsOf (ls ++ [raw]) := by
      rw [objectsOf_append h.objects, objectsOf, hobj, objectsOf]
    have hreads : Reads first content _ := .reading hyields
    rw [List.length_append, List.flatten_append, List.flatten_singleton, List.length_append,
      ← hrecords] at hreads
    exact hreads

/-- The body of the loop, at the end of the file. -/
theorem Reads.tail (h : Split content ls position buffer) (hbuffer : newline ∉ buffer)
    (hend : content.length ≤ position) (hfirst : first <+: content) :
    Reads first content (body ⟨false, .reading ls.length ls.flatten.length position buffer,
      objectsOf ls⟩ ls.length ls.flatten.length position buffer []) := by
  have hlast : buffer.getLast? ≠ some newline := fun e => hbuffer (List.mem_of_getLast? e)
  have hread : iterate (content.take position) =
      ⟨objectsOf ls, none, false || decide (buffer ≠ [])⟩ := by
    rw [h.iterate_eq, Bool.false_or]
    by_cases hempty : buffer = []
    · subst hempty
      rw [splitLines_nil, readLines, Reading.after, List.append_nil]
      rfl
    · rw [splitLines_torn hbuffer hempty, readLines, if_pos hlast, Reading.after, List.append_nil]
  rw [body, if_pos hlast]
  refine .ended h.within hread fun _ => ?_
  rw [List.take_of_length_le hend]
  exact hfirst

/-- A step keeps to it. -/
theorem Reads.step (h : Reads first (file.getD []) reader) (hfirst : first <+: file.getD [])
    (hs : reader.Step file reader') : Reads first (file.getD []) reader' := by
  cases hs with
  | again => exact .ready _
  | opened => exact .reading .zero
  | missing _ hfile =>
    rw [hfile] at hfirst ⊢
    exact .ended (k := 0) (r := iterate []) (Nat.zero_le _) rfl fun _ => hfirst
  | notOpened e => exact .failed (k := 0) e (Nat.zero_le _) rfl
  | line hr hraw =>
    obtain ⟨ls, hsplit, rfl, rfl, rfl⟩ := h.of_reading hr
    exact .line hsplit hraw
  | block hr _ hfile hbytes _ =>
    obtain ⟨ls, hsplit, rfl, rfl, rfl⟩ := h.of_reading hr
    subst hfile
    exact .reading (hsplit.block hbytes)
  | tail hr hbuffer hfile hend =>
    obtain ⟨ls, hsplit, rfl, rfl, rfl⟩ := h.of_reading hr
    subst hfile
    exact .tail hsplit hbuffer hend hfirst
  | notRead e hr =>
    obtain ⟨ls, hsplit, rfl, rfl, rfl⟩ := h.of_reading hr
    obtain ⟨htake, hle⟩ := hsplit.take_lines
    exact .failed e hle (by rw [htake, iterate_lines hsplit.lines hsplit.objects])

/-- What has been read is a reading of a prefix. -/
theorem Reads.exists_take (h : Reads first content reader) :
    ∃ k ≤ content.length, reader.yielded = (iterate (content.take k)).records ∧
      ∀ error, reader.iteration = .ended error →
        iterate (content.take k) = ⟨reader.yielded, error, reader.truncated⟩ ∧
          (error = none → first <+: content.take k) := by
  cases h with
  | ready t => exact ⟨0, Nat.zero_le _, rfl, by rintro error ⟨⟩⟩
  | reading hsplit =>
    obtain ⟨htake, hle⟩ := hsplit.take_lines
    refine ⟨_, hle, ?_, by rintro error ⟨⟩⟩
    rw [htake, iterate_lines hsplit.lines hsplit.objects]
  | @ended k _ within reads fresh =>
    subst reads
    exact ⟨k, within, rfl, by rintro error ⟨⟩; exact ⟨rfl, fresh⟩⟩
  | @failed k _ e within reads => exact ⟨k, within, reads.symm, by rintro error ⟨⟩⟩

end JsonlReader

/-! ## The file grows meanwhile -/

/-- The steps of a reader, and those of what is beside it. -/
inductive Beside {σ : Type} (env : σ → σ → Prop) (file : σ → Option Bytes) :
    σ × JsonlReader → σ × JsonlReader → Prop where
  | world {s s' : σ} {reader : JsonlReader} (h : env s s') : Beside env file (s, reader) (s', reader)
  | reads {s : σ} {reader reader' : JsonlReader} (h : reader.Step (file s) reader') :
    Beside env file (s, reader) (s, reader')

section

variable {σ : Type} {env : σ → σ → Prop} {file : σ → Option Bytes} {s s' : σ}
  {reader : JsonlReader}

/-- What the file has when it is opened. -/
def contentOf (file : σ → Option Bytes) (s : σ) : Bytes := (file s).getD []

theorem Beside.transGen_world {reader' : JsonlReader}
    (h : ReflTransGen (Beside env file) (s, reader) (s', reader')) : ReflTransGen env s s' := by
  generalize hx : (s', reader') = x at h
  induction h generalizing s' reader' with
  | refl => cases hx; exact .refl
  | tail _ hstep ih =>
    cases hx
    cases hstep with
    | world henv => exact (ih rfl).tail henv
    | reads => exact ih rfl

/-- The steps of a reader while nothing else happens. -/
theorem Beside.of_steps {reader' : JsonlReader}
    (h : ReflTransGen (JsonlReader.Step (file s)) reader reader') :
    ReflTransGen (Beside env file) (s, reader) (s, reader') := by
  induction h with
  | refl => exact .refl
  | tail _ hs ih => exact ih.tail (.reads hs)

/-- The steps of what is beside it while it waits. -/
theorem Beside.of_world (h : ReflTransGen env s s') :
    ReflTransGen (Beside env file) (s, reader) (s', reader) := by
  induction h with
  | refl => exact .refl
  | tail _ henv ih => exact ih.tail (.world henv)

/-- What a reader has read beside a file that only grows. -/
theorem JsonlReader.reads_beside
    (hgrow : ∀ {s s'}, env s s' → contentOf file s <+: contentOf file s')
    (h : ReflTransGen (Beside env file) (s, .init) (s', reader)) :
    reader.Reads (contentOf file s) (contentOf file s') ∧
      contentOf file s <+: contentOf file s' := by
  generalize hx : (s', reader) = x at h
  induction h generalizing s' reader with
  | refl =>
    cases hx
    exact ⟨.ready _, List.prefix_rfl⟩
  | tail _ hstep ih =>
    cases hx
    cases hstep with
    | world henv =>
      obtain ⟨hreads, hp⟩ := ih rfl
      exact ⟨hreads.mono (hgrow henv), hp.trans (hgrow henv)⟩
    | reads hs =>
      obtain ⟨hreads, hp⟩ := ih rfl
      exact ⟨hreads.step hp hs, hp⟩

/-- **A reader never mixes states of the file.** Beside a file that is only appended to, at any
moment, what an iteration has yielded is what a reading of some prefix of the file yields, and
where it has ended, however it ended, that reading ends in the same way. If it ended without an
exception, it has read all that was in the file when the reader was made. -/
theorem JsonlReader.reads_prefix
    (hgrow : ∀ {s s'}, env s s' → contentOf file s <+: contentOf file s')
    (h : ReflTransGen (Beside env file) (s, .init) (s', reader)) :
    ∃ k ≤ (contentOf file s').length,
      reader.yielded = (iterate ((contentOf file s').take k)).records ∧
      ∀ error, reader.iteration = .ended error →
        iterate ((contentOf file s').take k) = ⟨reader.yielded, error, reader.truncated⟩ ∧
          (error = none → contentOf file s <+: (contentOf file s').take k) :=
  (JsonlReader.reads_beside hgrow h).1.exists_take

/-- **A second reading begins with the first.** Of two readers, of which the second is made later
and ends without an exception, the second yields what the first had yielded by then, and then
perhaps more. -/
theorem JsonlReader.reads_again {s₁ s₂ : σ} {reader' : JsonlReader}
    (hgrow : ∀ {s s'}, env s s' → contentOf file s <+: contentOf file s')
    (h₁ : ReflTransGen (Beside env file) (s, .init) (s₁, reader))
    (h₂ : ReflTransGen env s₁ s₂)
    (h₃ : ReflTransGen (Beside env file) (s₂, .init) (s', reader'))
    (hended : reader'.iteration = .ended none) : reader.yielded <+: reader'.yielded := by
  obtain ⟨k, -, hyielded, -⟩ := (JsonlReader.reads_beside hgrow h₁).1.exists_take
  obtain ⟨k', -, hyielded', hend⟩ := (JsonlReader.reads_beside hgrow h₃).1.exists_take
  have hbetween : contentOf file s₁ <+: contentOf file s₂ := by
    clear h₃ hend hyielded'
    induction h₂ with
    | refl => exact List.prefix_rfl
    | tail _ henv ih => exact ih.trans (hgrow henv)
  rw [hyielded, hyielded']
  exact records_isPrefix
    ((List.take_prefix _ _).trans (hbetween.trans ((hend _ hended).2 rfl)))

end

/-! ## The file stays as it is -/

namespace JsonlReader

variable {content : Bytes} {reader reader' : JsonlReader}

/-- How much is left to do. -/
def left (content : Bytes) (reader : JsonlReader) : Nat :=
  match reader.iteration with
  | .ready => 2 * content.length + 2
  | .reading _ _ position buffer => 2 * (content.length - position) + buffer.length + 1
  | .ended _ | .failed _ => 0

omit [PyRuntime] in
/-- A buffer that has a newline begins with a line. -/
theorem exists_line {buffer : Bytes} (h : newline ∈ buffer) :
    ∃ raw rest, buffer = raw ++ rest ∧ IsLine raw := by
  obtain ⟨ls, t, hls, ht, rfl⟩ := exists_lines buffer
  cases ls with
  | nil => exact absurd h ht
  | cons l ls => exact ⟨l, ls.flatten ++ t, by simp, hls l List.mem_cons_self⟩

/-- An iteration that has not ended can go on, and then has less to do. -/
theorem exists_step (h : reader.left content ≠ 0) :
    ∃ reader', reader.Step (some content) reader' ∧ reader'.left content < reader.left content ∧
      ∀ e, reader'.iteration ≠ .failed e := by
  obtain ⟨t, iteration, objs⟩ := reader
  cases iteration with
  | ready =>
    refine ⟨_, .opened rfl rfl, ?_, by rintro e ⟨⟩⟩
    show 2 * (content.length - 0) + 0 + 1 < 2 * content.length + 2
    omega
  | ended error => exact absurd rfl h
  | failed e => exact absurd rfl h
  | reading lineno offset position buffer =>
    by_cases hbuffer : newline ∈ buffer
    · obtain ⟨raw, rest, rfl, hraw⟩ := exists_line hbuffer
      have hlen := List.length_pos_of_ne_nil hraw.ne_nil
      refine ⟨_, .line rfl hraw, ?_⟩
      rw [body, if_neg (not_not_intro hraw.getLast?)]
      cases readLine (lineno + 1) offset raw.dropLast with
      | error e => exact ⟨Nat.succ_pos _, by rintro e ⟨⟩⟩
      | ok record =>
        refine ⟨?_, by rintro e ⟨⟩⟩
        show 2 * (content.length - position) + rest.length + 1 <
          2 * (content.length - position) + (raw ++ rest).length + 1
        rw [List.length_append]
        omega
    · by_cases hend : content.length ≤ position
      · refine ⟨_, .tail rfl hbuffer rfl hend, ?_⟩
        rw [body, if_pos fun e => hbuffer (List.mem_of_getLast? e)]
        exact ⟨Nat.succ_pos _, by rintro e ⟨⟩⟩
      · have hne : content.drop position ≠ [] := by
          rw [Ne, List.drop_eq_nil_iff]
          exact hend
        refine ⟨_, .block rfl hbuffer rfl List.prefix_rfl hne, ?_, by rintro e ⟨⟩⟩
        show 2 * (content.length - (position + (content.drop position).length)) +
            (buffer ++ content.drop position).length + 1 <
          2 * (content.length - position) + buffer.length + 1
        rw [List.length_append, List.length_drop]
        omega

/-- An iteration that has not failed can be brought to its end. -/
theorem exists_ended (n : Nat) (hn : reader.left content ≤ n)
    (h : ∀ e, reader.iteration ≠ .failed e) :
    ∃ reader' error, ReflTransGen (Step (some content)) reader reader' ∧
      reader'.iteration = .ended error := by
  induction n generalizing reader with
  | zero =>
    obtain ⟨t, iteration, objs⟩ := reader
    cases iteration with
    | ready => cases hn
    | reading => cases hn
    | ended error => exact ⟨_, error, .refl, rfl⟩
    | failed e => exact absurd rfl (h e)
  | succ n ih =>
    by_cases hzero : reader.left content = 0
    · exact ih (by omega) h
    · obtain ⟨next, hstep, hlt, hnext⟩ := exists_step hzero
      obtain ⟨reader', error, hrest, hended⟩ := ih (by omega) hnext
      exact ⟨reader', error, .head hstep hrest, hended⟩

/-- A file can be read in one block. -/
theorem steps_block (content : Bytes) : ReflTransGen (Step (some content)) init
    ⟨false, .reading 0 0 content.length content, []⟩ := by
  have opened : ReflTransGen (Step (some content)) init (start .handle) :=
    .single (.opened rfl rfl)
  by_cases hempty : content = []
  · subst hempty
    exact opened
  · have block := opened.tail (.block rfl List.not_mem_nil rfl
      (show content <+: content.drop 0 from List.prefix_rfl) hempty)
    rwa [Nat.zero_add, List.nil_append] at block

theorem exists_ended_init (content : Bytes) :
    ∃ reader error, ReflTransGen (Step (some content)) init reader ∧
      reader.iteration = .ended error :=
  exists_ended _ (Nat.le_refl _) (by rintro e ⟨⟩)

/-- A reader can read a block, wait while something goes on beside it, and then be brought to its
end. -/
theorem exists_run {σ : Type} {env : σ → σ → Prop} {file : σ → Option Bytes} {s s' : σ}
    {content' : Bytes} (hfile : file s = some content) (hfile' : file s' = some content')
    (h : ReflTransGen env s s') :
    ∃ reader error,
      ReflTransGen (Beside env file) (s, .init)
        (s, ⟨false, .reading 0 0 content.length content, []⟩) ∧
      ReflTransGen (Beside env file) (s, ⟨false, .reading 0 0 content.length content, []⟩)
        (s', reader) ∧ reader.iteration = .ended error := by
  obtain ⟨reader, error, hsteps, hended⟩ := exists_ended _ (Nat.le_refl (left content'
    ⟨false, .reading 0 0 content.length content, []⟩)) (by rintro e ⟨⟩)
  rw [← hfile'] at hsteps
  refine ⟨reader, error, Beside.of_steps ?_, (Beside.of_world h).trans (Beside.of_steps hsteps),
    hended⟩
  rw [hfile]
  exact steps_block content

/-- An iteration of a file that stayed as it is has read all of it. -/
theorem iterate_of_ended {error : Option PyError}
    (h : ReflTransGen (Step (some content)) init reader) (hended : reader.iteration = .ended error) :
    iterate content = ⟨reader.yielded, error, reader.truncated⟩ := by
  have hreads : reader.Reads content content := by
    clear hended
    induction h with
    | refl => exact .ready _
    | tail _ hs ih => exact Reads.step ih List.prefix_rfl hs
  cases hreads with
  | ready => cases hended
  | reading => cases hended
  | failed => cases hended
  | @ended k r within reads fresh =>
    cases hended
    cases herror : r.error with
    | none =>
      have hwhole : content.take k = content :=
        ((fresh herror).eq_of_length_le (List.length_take_le' k content)).symm
      rw [hwhole] at reads
      rw [reads, ← herror]
    | some e =>
      rw [iterate_of_error (by rw [reads]; exact herror) (List.take_prefix k content), reads,
        ← herror]

/-- **The generator is the reading.** Over a file that stays as it is, the iteration can always
be brought to its end, and however it gets there, in blocks of whatever sizes and however often
begun anew, it has read the file as `iterate` does. -/
theorem reads_alone (content : Bytes) :
    (∀ reader error, ReflTransGen (Step (some content)) init reader →
      reader.iteration = .ended error →
        iterate content = ⟨reader.yielded, error, reader.truncated⟩) ∧
    ∃ reader error, ReflTransGen (Step (some content)) init reader ∧
      reader.iteration = .ended error :=
  ⟨fun _ _ h hended => iterate_of_ended h hended, exists_ended_init content⟩

end JsonlReader

/-! ## A file of two records -/

section

omit [PyRuntime]

/-- `{}`, as a line. -/
def emptyObjects (n : Nat) : Bytes := (List.replicate n [123, 125, newline]).flatten

theorem iterate_emptyObjects : @iterate PyRuntime.plain (emptyObjects 1) = ⟨[[]], none, false⟩ ∧
    @iterate PyRuntime.plain (emptyObjects 2) = ⟨[[], []], none, false⟩ := ⟨rfl, rfl⟩

theorem reads_emptyObjects {n : Nat} {objs : List JsonObject}
    (h : @iterate PyRuntime.plain (emptyObjects n) = ⟨objs, none, false⟩) :
    let _ := PyRuntime.plain
    ReflTransGen (Beside (fun xs ys : Bytes => xs <+: ys) some) (emptyObjects n, .init)
      (emptyObjects n, ⟨false, .ended none, objs⟩) := by
  intro _
  obtain ⟨⟨t, iteration, yielded⟩, error, hsteps, hended⟩ :=
    JsonlReader.exists_ended_init (emptyObjects n)
  cases h.symm.trans (JsonlReader.iterate_of_ended hsteps hended)
  cases hended
  exact Beside.of_steps hsteps

/-- The content of a file that is there. -/
theorem contentOf_some {xs ys : Bytes} (h : xs <+: ys) :
    contentOf some xs <+: contentOf some ys := h

/-- The second line is torn when the reader reads it first, and is completed between two of its
blocks. -/
theorem reads_grown :
    let _ := PyRuntime.plain
    ReflTransGen (Beside (fun xs ys : Bytes => xs <+: ys) some) ((emptyObjects 2).take 4, .init)
      (emptyObjects 2, ⟨false, .ended none, [[], []]⟩) := by
  intro _
  have first : ReflTransGen (JsonlReader.Step (some ((emptyObjects 2).take 4))) .init
      ⟨false, .reading 1 3 4 [123], [[]]⟩ :=
    ((ReflTransGen.single (.opened rfl rfl)).tail (.block rfl List.not_mem_nil rfl
      (show [123, 125, newline] ++ [123] <+: ((emptyObjects 2).take 4).drop 0 from List.prefix_rfl)
      (List.cons_ne_nil _ _))).tail (.line rfl ⟨[123, 125], by decide, rfl⟩)
  have block : JsonlReader.Step (some (emptyObjects 2)) ⟨false, .reading 1 3 4 [123], [[]]⟩
      ⟨false, .reading 1 3 6 ([123, 125, newline] ++ []), [[]]⟩ :=
    .block rfl (show newline ∉ ([123] : Bytes) by decide) rfl
      (show [125, newline] <+: (emptyObjects 2).drop 4 from List.prefix_rfl) (List.cons_ne_nil _ _)
  have line : JsonlReader.Step (some (emptyObjects 2))
      ⟨false, .reading 1 3 6 ([123, 125, newline] ++ []), [[]]⟩
      ⟨false, .reading 2 6 6 [], [[], []]⟩ := .line rfl ⟨[123, 125], by decide, rfl⟩
  have tail : JsonlReader.Step (some (emptyObjects 2)) ⟨false, .reading 2 6 6 [], [[], []]⟩
      ⟨false, .ended none, [[], []]⟩ := .tail rfl List.not_mem_nil rfl (Nat.le_refl 6)
  exact ((Beside.of_steps first).tail (.world (List.take_prefix _ _))).trans
    (Beside.of_steps (((ReflTransGen.single block).tail line).tail tail))

theorem reads_prefix_grown :
    let _ := PyRuntime.plain
    ∃ k ≤ (emptyObjects 2).length, iterate ((emptyObjects 2).take k) = ⟨[[], []], none, false⟩ ∧
      (emptyObjects 2).take 4 <+: (emptyObjects 2).take k := by
  intro _
  obtain ⟨k, hk, -, hend⟩ := JsonlReader.reads_prefix contentOf_some reads_grown
  obtain ⟨hreads, hfresh⟩ := hend none rfl
  exact ⟨k, hk, hreads, hfresh rfl⟩

theorem reads_again_emptyObjects : ([[]] : List JsonObject) <+: [[], []] := by
  let _ := PyRuntime.plain
  have hgrown : emptyObjects 1 <+: emptyObjects 2 := by decide
  exact JsonlReader.reads_again contentOf_some (reads_emptyObjects iterate_emptyObjects.1)
    (.single hgrown) (reads_emptyObjects iterate_emptyObjects.2) rfl

end

end NmLogging
