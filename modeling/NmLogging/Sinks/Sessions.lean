import NmLogging.Sinks.Failure

/-!
# Sessions

The history of an audit file over any number of processes. In each session the
stream registry is new, so the latch is open; the calls are made one after
another; and the session ends at any moment, by an exit or by a crash that keeps
what was synced and some more (`FileHistory`). Every acknowledged record is read,
in order, as long as no session completes a line behind a torn tail that an earlier
one left (`history_allRead`). The latch does not prevent that: it is gone with its
process (`not_history_allRead`).
-/

namespace NmLogging

open Relation (ReflTransGen)

/-! ## One session -/

/-- Calls are made one after another. -/
def Sequential (_ : Stream) (calls : List (Call × SinkProg Unit)) (_ : Call) : Prop :=
  ∀ q ∈ calls, q.2.result?.isSome = true

variable [PyRuntime]

/-- The audit sinks of one session on a file. -/
def sessionSystem : System (lockSig streamSig) PyError Unit Call (Locked Stream) :=
  (fileMonitor .audit true ownEntries Sequential).system

/-- What a session is at any moment. -/
abbrev Session := Config (lockSig streamSig) PyError Unit Call (Locked Stream)

/-- The record of a call whose append returned normally. -/
def acknowledgedRecord : Call × SinkProg Unit → Option Record
  | (.write _ r, .ret ()) => some r
  | _ => none

/-- The records whose append returned normally, in the order of the calls. -/
def acknowledgedRecords (calls : List (Call × SinkProg Unit)) : List Record :=
  calls.filterMap acknowledgedRecord

/-- The calls of the acknowledged records, by number. -/
def acknowledgedCalls (calls : List (Call × SinkProg Unit)) : List Nat :=
  (List.range calls.length).filter fun i => (calls[i]?.bind acknowledgedRecord).isSome

omit [PyRuntime] in
theorem acknowledgedRecord_eq_some {q : Call × SinkProg Unit} {r : Record} :
    acknowledgedRecord q = some r ↔ ∃ sink, q = (.write sink r, .ret ()) := by
  obtain ⟨c, p⟩ := q
  unfold acknowledgedRecord
  split
  · rename_i e
    cases e
    simp
  · rename_i h
    constructor
    · intro e; cases e
    · rintro ⟨sink, e⟩
      exact absurd e (h sink r)

omit [PyRuntime] in
/-- The acknowledged records are those of the acknowledged calls, in order. -/
theorem acknowledged_forall₂ (calls : List (Call × SinkProg Unit)) :
    List.Forall₂ (fun r i => ∃ sink, calls[i]? = some (.write sink r, .ret ()))
      (acknowledgedRecords calls) (acknowledgedCalls calls) := by
  induction calls using List.reverseRecOn with
  | nil => exact .nil
  | append_singleton calls q ih =>
    have hcalls : acknowledgedCalls (calls ++ [q]) = acknowledgedCalls calls ++
        if (acknowledgedRecord q).isSome then [calls.length] else [] := by
      rw [acknowledgedCalls, List.length_append, List.length_singleton, List.range_succ,
        List.filter_append]
      congr 1
      · refine List.filter_congr fun i hi => ?_
        rw [List.getElem?_append_left (List.mem_range.mp hi)]
      · rw [List.filter_cons]
        simp
    rw [hcalls, acknowledgedRecords, List.filterMap_append]
    refine List.rel_append ?_ ?_
    · refine ih.imp fun r i ⟨sink, h⟩ => ⟨sink, ?_⟩
      rw [List.getElem?_append_left (List.getElem?_eq_some_iff.mp h).1, h]
    · cases hq : acknowledgedRecord q with
      | none => simp [hq]
      | some r =>
        obtain ⟨sink, rfl⟩ := acknowledgedRecord_eq_some.mp hq
        simp [hq]

variable {f₀ : Bytes} {cfg : Session}

/-- In a session each call but the last has ended, and the history is in the order of
the calls. -/
theorem session_order (h : sessionSystem.Reachable ⟨none, .fresh f₀⟩ cfg) :
    (∀ i q, cfg.calls[i]? = some q → i + 1 < cfg.calls.length → q.2.result?.isSome = true) ∧
      (cfg.shared.payload.log.map Entry.index).Pairwise (· < ·) := by
  induction h with
  | refl => exact ⟨by simp, by simp [Stream.fresh]⟩
  | @tail cfg cfg' hr st ih =>
    obtain ⟨hend, hlog⟩ := ih
    have hentry := entry_of_call hr
    obtain ⟨_, hshape⟩ := Monitor.reachable_always (framing_safe _ _ .audit f₀) (framing_fresh .audit f₀)
      (fun _ => rfl) (ReflTransGen.tail hr st)
    cases st with
    | @start s cs c hc =>
      refine ⟨fun i q hi hlt => ?_, hlog⟩
      simp only [List.length_append, List.length_singleton] at hlt
      rw [List.getElem?_append_left (by omega)] at hi
      exact hc q (List.mem_of_getElem? hi)
    | @perform s s' cs j c o k r hj hstep =>
      have hjlt := (List.getElem?_eq_some_iff.mp hj).1
      have hlast : j + 1 = cs.length := by
        by_contra hne
        have := hend j _ hj (by simp only; omega)
        simp [Prog.result?] at this
      refine ⟨fun i q hi hlt => ?_, ?_⟩
      · simp only [List.length_set] at hlt
        rw [List.getElem?_set_ne (by omega)] at hi
        exact hend i q hi hlt
      · cases o with
        | acquire =>
          obtain ⟨-, rfl⟩ := hstep
          have hacq : (s.payload.acquire j c).log.map Entry.index =
              s.payload.log.map Entry.index ++ [j] := by simp [Stream.acquire]
          have hnd : ((s.payload.acquire j c).log.map Entry.index).Nodup := hshape.nodup
          show ((s.payload.acquire j c).log.map Entry.index).Pairwise (· < ·)
          rw [hacq] at hnd ⊢
          refine List.pairwise_append.mpr ⟨hlog, by simp, fun a ha b hb => ?_⟩
          rw [List.mem_singleton] at hb
          subst hb
          obtain ⟨e, he, rfl⟩ := List.mem_map.mp ha
          obtain ⟨p, hp⟩ := hentry e he
          have hlt : e.index < cs.length := (List.getElem?_eq_some_iff.mp hp).1
          have hne : e.index ≠ b := fun e' =>
            (List.nodup_append.mp hnd).2.2 e.index ha b (by simp) e'
          omega
        | release => obtain ⟨-, rfl⟩ := hstep; exact hlog
        | act o =>
          obtain ⟨p', hstep, rfl⟩ := hstep
          rw [index_step hstep]
          exact hlog

/-- The acknowledged records of a session and their entries in its history. -/
theorem session_acknowledged (h : sessionSystem.Reachable ⟨none, .fresh f₀⟩ cfg) :
    ∃ es, List.Sublist es cfg.shared.payload.log ∧
      List.Forall₂ (fun r e => ∃ sink, e.call = .write sink r ∧ Acknowledged .audit e)
        (acknowledgedRecords cfg.calls) es := by
  obtain ⟨-, hlog⟩ := session_order h
  have hended : ∀ {i sink r}, cfg.calls[i]? = some (.write sink r, .ret ()) →
      ∃ e ∈ cfg.shared.payload.log, e.index = i ∧ Acknowledged .audit e :=
    fun hi => (ended_write_iff h ⟨_, hi, rfl⟩).mp rfl
  -- the entries of the acknowledged calls, in the order of the history
  let es := cfg.shared.payload.log.filter fun e => e.index ∈ acknowledgedCalls cfg.calls
  have hsub : List.Sublist es cfg.shared.payload.log := List.filter_sublist
  have hindex : es.map Entry.index = acknowledgedCalls cfg.calls := by
    refine List.Perm.eq_of_pairwise' (r := (· < ·)) (hlog.sublist (hsub.map _))
      (List.pairwise_lt_range.sublist List.filter_sublist) ?_
    refine (List.perm_ext_iff_of_nodup (hlog.sublist (hsub.map _)).nodup
      (List.nodup_range.sublist List.filter_sublist)).mpr fun i => ⟨fun hi => ?_, fun hi => ?_⟩
    · obtain ⟨e, he, rfl⟩ := List.mem_map.mp hi
      exact of_decide_eq_true (List.mem_filter.mp he).2
    · obtain ⟨r, hr⟩ := Option.isSome_iff_exists.mp (List.mem_filter.mp hi).2
      obtain ⟨q, hq, hqr⟩ := Option.bind_eq_some_iff.mp hr
      obtain ⟨sink, rfl⟩ := acknowledgedRecord_eq_some.mp hqr
      obtain ⟨e, he, rfl, -⟩ := hended hq
      exact List.mem_map_of_mem (List.mem_filter.mpr ⟨he, decide_eq_true hi⟩)
  refine ⟨es, hsub, ?_⟩
  have hall := acknowledged_forall₂ cfg.calls
  rw [← hindex, List.forall₂_map_right_iff, List.forall₂_iff_zip] at hall
  refine List.forall₂_iff_zip.mpr ⟨hall.1, fun {r e} hmem => ?_⟩
  obtain ⟨sink, hcall⟩ := hall.2 hmem
  have he := hsub.subset (List.of_mem_zip hmem).2
  obtain ⟨e', he', hi, hack⟩ := hended hcall
  cases List.inj_on_of_nodup_map hlog.nodup he' he hi
  obtain ⟨p, hp⟩ := entry_of_call h e he
  exact ⟨sink, (Prod.mk.inj (Option.some.inj (hp.symm.trans hcall))).1, hack⟩

/-! ## Histories -/

/-- What is left of a file after sessions that met `ok`, how much of it is known to be
durable, and the records that were acknowledged. A session starts with its stream
not latched and ends at any moment; what was synced is kept, and any prefix of the
rest. -/
inductive FileHistory (ok : Bytes → Session → Prop) : Bytes → Nat → List Record → Prop where
  | start : FileHistory ok [] 0 []
  | session {f : Bytes} {durable n : Nat} {acked : List Record} {cfg : Session}
    (h : FileHistory ok f durable acked) (hrun : sessionSystem.Reachable ⟨none, .fresh f⟩ cfg)
    (hok : ok f cfg) (hdur : durable ≤ n) (hsync : cfg.shared.payload.durable ≤ n)
    (hn : n ≤ cfg.shared.payload.content.length) :
    FileHistory ok (cfg.shared.payload.content.take n) (max durable cfg.shared.payload.durable)
      (acked ++ acknowledgedRecords cfg.calls)

/-- The reader yields what `json.loads` makes of the text of each record, in this order,
and ends without an exception. -/
def AllRead (f : Bytes) (records : List Record) : Prop :=
  (iterate f).error = none ∧ ∃ objs, List.Sublist objs (iterate f).records ∧
    List.Forall₂ (fun r obj => ∃ s, encode r = .ok s ∧ loads s = .ok (.obj obj)) records objs

/-- The session does not complete a line behind a torn tail. -/
def StartsFramed (f : Bytes) (cfg : Session) : Prop :=
  Framed f ∨ completes .audit cfg.shared.payload.log = []

/-- A file of lines that are objects and a torn tail; the lines of the acknowledged records
are among the first of them, which are durable. -/
structure Readable (f : Bytes) (durable : Nat) (acked : List Record) (first rest : List Bytes)
    (torn : Bytes) : Prop where
  file : f = (first ++ rest).flatten ++ torn
  isLine : ∀ l ∈ first ++ rest, IsLine l ∧ (lineObject l).isSome
  notMem : newline ∉ torn
  bound : first.flatten.length ≤ durable
  acked : ∃ lines, List.Sublist lines first ∧
    List.Forall₂ (fun r l => StreamKind.audit.encodeLine r = .ok l) acked lines

section

variable {f : Bytes} {durable : Nat} {acked : List Record} {first rest : List Bytes} {torn : Bytes}

/-- A crash keeps the durable lines. -/
theorem Readable.take {n : Nat} (h : Readable f durable acked first rest torn) (hn : durable ≤ n) :
    ∃ rest' torn', Readable (f.take n) durable acked first rest' torn' := by
  obtain ⟨torn', ht', e⟩ := take_lines (fun l hl => (h.isLine l hl).1) h.notMem n
  have hle : first.length ≤ linesWithin (first ++ rest) n := by
    cases hlen : first.length with
    | zero => exact Nat.zero_le _
    | succ j =>
      refine lt_linesWithin.mpr ⟨by rw [List.length_append]; omega, ?_⟩
      rw [List.take_append_of_le_length (by omega), List.take_of_length_le (by omega)]
      exact Nat.le_trans h.bound hn
  have htake : (first ++ rest).take (linesWithin (first ++ rest) n) =
      first ++ rest.take (linesWithin (first ++ rest) n - first.length) := by
    rw [List.take_append, List.take_of_length_le hle]
  refine ⟨rest.take (linesWithin (first ++ rest) n - first.length), torn', ?_, ?_, ht', h.bound,
    h.acked⟩
  · rw [h.file, e, htake]
  · rw [← htake]
    exact fun l hl => h.isLine l (List.mem_of_mem_take hl)

/-- The lines of a session's complete appends are objects. -/
theorem isLine_of_completes {log : List Entry} : ∀ l ∈ (completes .audit log).map Entry.wrote,
    IsLine l ∧ (lineObject l).isSome := by
  intro l hl
  obtain ⟨e, he, rfl⟩ := List.mem_map.mp hl
  obtain ⟨_, _, -, hl⟩ := exists_of_completes he
  obtain ⟨obj, hobj, -⟩ := lineObject_of_encodeLine hl
  exact ⟨(encodeLine_ok hl).1, by rw [hobj]; rfl⟩

/-- The lines of the acknowledged records of a session are among those it synced. -/
theorem session_lines (hrun : sessionSystem.Reachable ⟨none, .fresh f⟩ cfg)
    {es es' : List Entry} (hsplit : completes .audit cfg.shared.payload.log = es ++ es')
    (hes' : ∀ e ∈ es', e.synced = false) :
    ∃ lines, List.Sublist lines (es.map Entry.wrote) ∧ List.Forall₂
      (fun r l => StreamKind.audit.encodeLine r = .ok l) (acknowledgedRecords cfg.calls) lines := by
  obtain ⟨as, hsub, has⟩ := session_acknowledged hrun
  have hack : ∀ {rs as}, List.Forall₂ (fun r e => ∃ sink, e.call = .write sink r ∧
      Acknowledged .audit e) rs as → ∀ e ∈ as, Acknowledged .audit e := by
    intro rs as h
    induction h with
    | nil => simp
    | cons h _ ih =>
      obtain ⟨_, -, h⟩ := h
      exact List.forall_mem_cons.mpr ⟨h, ih⟩
  have hcomplete : List.Sublist as (completes .audit cfg.shared.payload.log) := by
    have := hsub.filter fun e => StreamKind.audit.lineOf e.call = some e.wrote
    rwa [List.filter_eq_self.mpr fun e he => decide_eq_true (hack has e he).1] at this
  have hsynced : List.Sublist as es := by
    have hnil : es'.filter Entry.synced = [] := List.filter_eq_nil_iff.mpr (by simpa using hes')
    have := hcomplete.filter Entry.synced
    rw [List.filter_eq_self.mpr fun e he => (hack has e he).2 rfl, hsplit, List.filter_append,
      hnil, List.append_nil] at this
    exact this.trans List.filter_sublist
  refine ⟨as.map Entry.wrote, hsynced.map _, List.forall₂_map_right_iff.mpr (has.imp ?_)⟩
  rintro r e ⟨sink, hc, hack⟩
  have := hack.1
  rw [hc] at this
  exact lineOf_write.mp this

/-- A session keeps the file readable unless it completes a line behind a torn tail. -/
theorem Readable.session (h : Readable f durable acked first rest torn)
    (hrun : sessionSystem.Reachable ⟨none, .fresh f⟩ cfg) (hok : StartsFramed f cfg) :
    ∃ first' rest' torn', Readable cfg.shared.payload.content
      (max durable cfg.shared.payload.durable) (acked ++ acknowledgedRecords cfg.calls)
      first' rest' torn' := by
  obtain ⟨t, hs⟩ := Monitor.reachable_always (framing_safe _ _ .audit f) (framing_fresh .audit f)
    (fun _ => rfl) hrun
  obtain ⟨es, es', hsplit, hes', hdur⟩ := hs.durable
  obtain ⟨lines, hlines, hacked⟩ := session_lines hrun hsplit hes'
  obtain ⟨lines₀, hsub₀, hacked₀⟩ := h.acked
  have hnew := @isLine_of_completes _ cfg.shared.payload.log
  have hbound : first.flatten.length ≤ max durable cfg.shared.payload.durable :=
    Nat.le_trans h.bound (Nat.le_max_left _ _)
  have hcont := hs.content
  rw [writtenBytes_eq, h.file] at hcont
  rcases hok with hframed | hnone
  · rw [h.file] at hframed
    have htorn := hframed.torn_eq_nil h.notMem
    rw [htorn, List.append_nil] at hcont
    rw [hsplit, List.map_append] at hcont hnew
    by_cases hne : es = []
    · subst hne
      rw [List.map_nil, List.sublist_nil] at hlines
      subst hlines
      refine ⟨first, rest ++ es'.map Entry.wrote, t, ?_, ?_, hs.newline_notMem, hbound, lines₀, hsub₀, ?_⟩
      · rw [hcont]
        simp
      · intro l hl
        rw [← List.append_assoc, List.mem_append] at hl
        exact hl.elim (h.isLine l) fun hl => hnew l (by simpa using hl)
      · rwa [List.forall₂_nil_right_iff.mp hacked, List.append_nil]
    · refine ⟨first ++ rest ++ es.map Entry.wrote, es'.map Entry.wrote, t, ?_, ?_,
        hs.newline_notMem, ?_, lines₀ ++ lines, ?_, List.rel_append hacked₀ hacked⟩
      · rw [hcont]
        simp
      · intro l hl
        rw [List.append_assoc, List.mem_append] at hl
        exact hl.elim (h.isLine l) fun hl => hnew l (by simpa using hl)
      · have := hdur hne
        rw [h.file, htorn, List.append_nil, writtenBytes_eq] at this
        rw [List.flatten_append]
        exact Nat.le_trans this (Nat.le_max_right _ _)
      · exact (hsub₀.trans (List.sublist_append_left _ _)).append hlines
  · rw [hsplit, List.append_eq_nil_iff] at hnone
    obtain ⟨rfl, rfl⟩ := hnone
    rw [List.map_nil, List.sublist_nil] at hlines
    subst hlines
    refine ⟨first, rest, torn ++ t, ?_, h.isLine, ?_, hbound, lines₀, hsub₀, ?_⟩
    · rw [hcont, hsplit]
      simp
    · simp [h.notMem, hs.newline_notMem]
    · rwa [List.forall₂_nil_right_iff.mp hacked, List.append_nil]

/-- The reader reads all acknowledged records of such a file. -/
theorem Readable.allRead (h : Readable f durable acked first rest torn) : AllRead f acked := by
  have hline : ∀ l ∈ first ++ rest, IsLine l := fun l hl => (h.isLine l hl).1
  have hobj : ∀ l ∈ first ++ rest, (lineObject l).isSome := fun l hl => (h.isLine l hl).2
  obtain ⟨lines, hsub, hacked⟩ := h.acked
  have hlines : ∀ l ∈ lines, (lineObject l).isSome := fun l hl =>
    hobj l (List.mem_append_left _ (hsub.subset hl))
  rw [h.file]
  refine ⟨(iterate_of_objects hline h.notMem hobj).1, objectsOf lines, ?_, ?_⟩
  · rw [iterate_records hline h.notMem, objectsOf_eq_filterMap hobj, objectsOf_eq_filterMap hlines]
    exact (hsub.trans (List.sublist_append_left _ _)).filterMap _
  · clear hsub h
    induction hacked with
    | nil => exact .nil
    | cons hl _ ih =>
      obtain ⟨obj, hl'⟩ := Option.isSome_iff_exists.mp (hlines _ List.mem_cons_self)
      rw [objectsOf, hl']
      exact .cons (loads_of_encodeLine hl hl') (ih fun l hl => hlines l (List.mem_cons_of_mem _ hl))

end

/-- **Acknowledged records are read**, over every history whose sessions start on a framed file
or complete no line. -/
theorem history_allRead {f : Bytes} {durable : Nat} {acked : List Record}
    (h : FileHistory StartsFramed f durable acked) : AllRead f acked := by
  have key : ∃ first rest torn, Readable f durable acked first rest torn := by
    induction h with
    | start => exact ⟨[], [], [], rfl, by simp, by simp, by simp, [], List.Sublist.refl _, .nil⟩
    | session h hrun hok hdur hsync hn ih =>
      obtain ⟨first, rest, torn, ih⟩ := ih
      obtain ⟨first', rest', torn', h'⟩ := ih.session hrun hok
      obtain ⟨rest'', torn'', h''⟩ := h'.take (Nat.max_le.mpr ⟨hdur, hsync⟩)
      exact ⟨_, _, _, h''⟩
  obtain ⟨first, rest, torn, key⟩ := key
  exact key.allRead

/-- One session that acknowledges one record. -/
theorem history_write {ok : Bytes → Session → Prop} {f : Bytes} {durable : Nat}
    {acked : List Record} {r : Record} {l : Bytes} (h : FileHistory ok f durable acked)
    (hl : StreamKind.audit.encodeLine r = .ok l) (hdur : durable ≤ f.length)
    (hok : ∀ cfg, ok f cfg) : FileHistory ok (f ++ l) (f ++ l).length (acked ++ [r]) := by
  obtain ⟨p, hr, hcont, hsync, -, -⟩ := reachable_write hl
    (show Sequential (.fresh f) [] (.write 0 r) by simp [Sequential])
  have hlen : p.content.length = (f ++ l).length := by rw [hcont]
  have hle : durable ≤ p.content.length := by rw [hcont, List.length_append]; omega
  have := h.session hr (hok _) hle (Nat.le_of_eq hsync) (Nat.le_refl _)
  rwa [List.take_length, hsync, Nat.max_eq_right hle, hlen, hcont] at this

omit [PyRuntime] in
/-- Two sessions, of which the second starts behind the line of the first. -/
theorem history_allRead_counted :
    let _ := PyRuntime.plain
    ∃ f durable,
      FileHistory StartsFramed f durable [.audit countedIntent, .audit countedOutcome] ∧
        AllRead f [.audit countedIntent, .audit countedOutcome] := by
  intro _
  obtain ⟨l₁, hl₁⟩ := exists_encodeLine_countedIntent
  obtain ⟨l₂, hl₂⟩ := exists_encodeLine_countedOutcome
  obtain ⟨body, -, rfl⟩ := (encodeLine_ok hl₁).1
  have h₀ : FileHistory StartsFramed [] 0 [] := .start
  have h₁ := history_write h₀ hl₁ (Nat.zero_le _) fun _ => .inl (.inl rfl)
  have h₂ := history_write h₁ hl₂ (Nat.le_refl _) fun _ => .inl (.inr (by simp))
  exact ⟨_, _, h₂, history_allRead h₂⟩

omit [PyRuntime] in
/-- The first session writes one byte of a line; the second, whose latch is open, writes a
whole line behind it and acknowledges it, and the reader fails there. -/
theorem not_history_allRead : ¬∀ f durable acked,
    @FileHistory PyRuntime.plain (fun _ _ => True) f durable acked →
      @AllRead PyRuntime.plain f acked := by
  let _ := PyRuntime.plain
  obtain ⟨l, hl⟩ := exists_encodeLine_sampleIntent
  obtain ⟨t, rfl, ht⟩ := head_encodeLine hl
  obtain ⟨p, hr, hcont, hdur⟩ := reachable_torn hl
    (by have := List.length_pos_iff.mpr ht; simp only [List.length_cons]; omega)
    (show Sequential (.fresh []) [] (.write 0 (.audit sampleIntent)) by simp [Sequential])
  have hcont : p.content = [0x7b] := hcont
  have h₁ : FileHistory (fun _ _ => True) [0x7b] 0 [] := by
    have h₀ : FileHistory (fun _ _ => True) [] 0 [] := .start
    have := h₀.session (n := 1) hr trivial (Nat.zero_le _) (by rw [hdur]; omega)
      (by rw [hcont]; rfl)
    rwa [hcont, hdur] at this
  intro hall
  obtain ⟨herr, -⟩ := hall _ _ _ (history_write h₁ hl (Nat.zero_le _) fun _ => trivial)
  have hline : ∀ m ∈ [[0x7b] ++ 0x7b :: t], IsLine m := by
    intro m hm
    rw [List.mem_singleton] at hm
    subst hm
    obtain ⟨body, hbody, e⟩ := (encodeLine_ok hl).1
    exact ⟨0x7b :: body, List.not_mem_cons_of_ne_of_not_mem (by decide) hbody, by rw [e]; rfl⟩
  have hfile : [0x7b] ++ 0x7b :: t = [[0x7b] ++ 0x7b :: t].flatten ++ [] := by simp
  rw [hfile, iterate_error hline (by simp)] at herr
  have hws := (isSome_lineObject_append hl).mp (herr _ List.mem_cons_self)
  exact absurd (hws 0x7b List.mem_cons_self) (by decide)

end NmLogging
