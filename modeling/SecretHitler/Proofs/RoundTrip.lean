import SecretHitler.Proofs.LawfulWire
import SecretHitler.Wire.Game
/-!
# The wire format loses nothing

Every state of a game, whether the rules lead to it or not, and every action, event,
step, rejection, rule set and configuration is read back from what is written of it,
be it from its text or from a tree (`wire_reads_back`). An event goes by its name, a
phase and a game by theirs; an action is found by its kind, which may stand anywhere
among its parts, and must be held whole before that.
-/

namespace SecretHitler

open Json

namespace Wire

variable {w : Arrangement} {members : List (String × Json)}

/-! ## Rules -/

instance : LawfulWire PowerSlot where
  decode_arrange w s := by
    show decode (w.arrange (.object _)) = some s
    dsimp only [decode]
    simp [List.lookup_cons]

instance : LawfulWire Bracket where
  decode_arrange w b := by
    show decode (w.arrange (.object _)) = some b
    dsimp only [decode]
    simp [List.lookup_cons]

instance : LawfulWire Rules where
  decode_arrange w r := by
    show decode (w.arrange (.object _)) = some r
    dsimp only [decode]
    simp [List.lookup_cons]

instance : LawfulWire Configuration where
  decode_arrange w c := by
    show decode (w.arrange (.object _)) = some c
    dsimp only [decode]
    simp [List.lookup_cons]

/-! ## Events -/

instance : LawfulWire Hand where
  decode_arrange w h := by
    show decode (w.arrange (.array [_, _, _])) = some h
    rw [w.array]
    show (decode (w.arrange (encode h.first)) >>= _) = some h
    simp

instance : LawfulWire Agenda where
  decode_arrange w a := by
    show decode (w.arrange (.array [_, _])) = some a
    rw [w.array]
    show (decode (w.arrange (encode a.first)) >>= _) = some a
    simp

instance : LawfulWire Enactor where
  decode_arrange w e := by cases e <;> simp [encode, decode, List.lookup_cons]

/-- No event writes a member twice. -/
theorem nodup_eventParts (e : Event) : ((eventParts e).map (·.1)).Nodup := by
  cases e <;> simp [eventParts]

/-- **The parts of an event are read by its name**, each event its own parts. -/
theorem decodeParts_arrange (w : Arrangement) (e : Event) :
    decodeParts (eventName e) (w.arrange (.object (eventParts e))) = some e := by
  cases e
  all_goals
    dsimp only [eventParts, eventName]
    -- the name selects the record that is read
    show (record? _ _ >>= _) = _
    simp [List.lookup_cons]

/-- A text gives the parts as they are, a tree insists on an object. -/
theorem decode_arrange_event (w : Arrangement) (e : Event) :
    decode (w.arrange (encode e)) = some e ∧ decodeText (w.arrange (encode e)) = some e := by
  have hparts := decodeParts_arrange w e
  obtain ⟨others, heq, -⟩ := w.object _ (nodup_eventParts e)
  show decode (w.arrange (.object [(eventName e, .object (eventParts e))])) = some e ∧
    decodeText (w.arrange (.object [(eventName e, .object (eventParts e))])) = some e
  rw [heq] at hparts
  rw [w.arrange_variant, heq]
  exact ⟨hparts, hparts⟩

instance : LawfulWire Event := ⟨fun w e => (decode_arrange_event w e).1⟩

/-! ## Boards -/

instance : LawfulWire Seating where
  decode_arrange w t := by
    show decode (w.arrange (.object _)) = some t
    dsimp only [decode]
    simp

instance : LawfulWire RoleMap where
  decode_arrange w m := by
    show decode (w.arrange (.object _)) = some m
    dsimp only [decode]
    simp

instance : LawfulWire Votes where
  decode_arrange w v := by
    show decode (w.arrange (.object _)) = some v
    dsimp only [decode]
    simp

instance : LawfulWire Track where
  decode_arrange w t := by
    show decode (w.arrange (.object _)) = some t
    dsimp only [decode]
    simp [List.lookup_cons]

instance : LawfulWire Deck where
  decode_arrange w d := by
    show decode (w.arrange (.object _)) = some d
    dsimp only [decode]
    simp [List.lookup_cons]

instance : LawfulWire Election where
  decode_arrange w e := by
    show decode (w.arrange (.object _)) = some e
    dsimp only [decode]
    simp [List.lookup_cons]

@[simp] theorem decodePowers_arrange (w : Arrangement) (investigated : SeatSet) :
    decodePowers (w.arrange (encodePowers investigated)) = some investigated := by
  simp [encodePowers, decodePowers, w.member?_arrange]

instance : LawfulWire Board where
  decode_arrange w b := by
    show decode (w.arrange (.object _)) = some b
    dsimp only [decode]
    simp [w.member?_arrange, List.lookup_cons]

/-! ## Games -/

instance : LawfulWire VetoStatus where
  decode_arrange w v := by cases v <;> simp [encode, decode, List.lookup_cons]

instance : LawfulWire Phase where
  decode_arrange w p := by
    show decode (w.arrange (.object [(phaseName p, phaseParts p)])) = some p
    rw [w.arrange_variant]
    cases p with
    | nomination candidate =>
      show (decodeNomination _).map _ = _
      simp [phaseParts, decodeNomination]
    | voting government votes =>
      show (decodeVoting _).map _ = _
      simp [phaseParts, decodeVoting, List.lookup_cons]
    | presidentChoice government hand =>
      show (decodePresidentChoice _).map _ = _
      simp [phaseParts, decodePresidentChoice, List.lookup_cons]
    | chancellorChoice government agenda veto =>
      show (decodeChancellorChoice _).map _ = _
      simp [phaseParts, decodeChancellorChoice, List.lookup_cons]
    | powerPending power president =>
      show (decodePowerPending _).map _ = _
      simp [phaseParts, decodePowerPending, List.lookup_cons]

instance : LawfulWire Running where
  decode_arrange w g := by
    show decode (w.arrange (.object _)) = some g
    dsimp only [decode]
    simp [List.lookup_cons]

instance : LawfulWire Lobby where
  decode_arrange w l := by
    show decode (w.arrange (.object _)) = some l
    dsimp only [decode]
    simp [List.lookup_cons]

instance : LawfulWire Game where
  decode_arrange w g := by
    cases g with
    | lobby l =>
      show decode (w.arrange (.object [(_, encode l)])) = _
      rw [w.arrange_variant]
      exact map_decode_arrange w Game.lobby l
    | running g =>
      show decode (w.arrange (.object [(_, encode g)])) = _
      rw [w.arrange_variant]
      exact map_decode_arrange w Game.running g
    | completed v =>
      show decode (w.arrange (.object [(_, .object [(_, encode v)])])) = _
      rw [w.arrange_variant]
      show (decodeCompleted (w.arrange _)).map Game.completed = _
      simp [decodeCompleted]

/-- A step reads back if its events do. -/
theorem decodeStep_arrange {events : Json → Option (List Event)}
    (h : ∀ l : List Event, events (w.arrange (encode l)) = some l) (s : Step) :
    decodeStep events (w.arrange (encode s)) = some s := by
  show decodeStep events (w.arrange (.object [(_, encode s.game), (_, encode s.events)])) = some s
  simp [decodeStep, w.member?_arrange, List.lookup_cons, h]

/-- The events of a step are read as the step is. -/
theorem decode_arrange_step (w : Arrangement) (s : Step) :
    decode (w.arrange (encode s)) = some s ∧ decodeText (w.arrange (encode s)) = some s :=
  ⟨decodeStep_arrange (decode_arrange w) s,
    decodeStep_arrange (decodeItems_arrange fun e => (decode_arrange_event w e).2) s⟩

instance : LawfulWire Step := ⟨fun w s => (decode_arrange_step w s).1⟩

instance : LawfulWire GameId where
  decode_arrange w id := map_decode_arrange w GameId.mk id.number

instance : LawfulWire Snapshot where
  decode_arrange w s := by
    show decode (w.arrange (.object _)) = some s
    dsimp only [decode]
    simp [List.lookup_cons]

/-! ## Actions -/

/-- The values that a part of an action may be written as. -/
inductive Scalar : Json → Prop
  | string (s : String) : Scalar (.string s)
  | bool (b : Bool) : Scalar (.bool b)
  | natural {n : ℕ} (h : n < UInt64.size) : Scalar (.natural n)

namespace Scalar

variable {j : Json}

/-- A scalar can be held at any depth. -/
theorem soundWithin_arrange (h : Scalar j) (w : Arrangement) (depth : ℕ) :
    soundWithin depth (w.arrange j) := by
  cases h with
  | string s => simp [soundWithin]
  | bool b => simp [soundWithin]
  | natural h => simp [soundWithin, h]

/-- A scalar is no empty object, so setting it aside does not change it. -/
@[simp] theorem emptyAsNull_arrange (h : Scalar j) (w : Arrangement) :
    (w.arrange j).emptyAsNull = w.arrange j := by
  cases h with
  | string s => simp [emptyAsNull]
  | bool b => simp [emptyAsNull]
  | natural h => simp [emptyAsNull]

@[simp] theorem of_string (s : String) : Scalar (encode s) := .string s

@[simp] theorem of_bool (b : Bool) : Scalar (encode b) := .bool b

@[simp] theorem of_index (n : UInt64) : Scalar (encode n) := .natural n.toNat_lt

@[simp] theorem of_ballot (b : Ballot) : Scalar (encode b) := by cases b <;> exact .string _

@[simp] theorem of_power (p : PendingPower) : Scalar (encode p) := by cases p <;> exact .string _

end Scalar

theorem membersSound_iff {depth : ℕ} :
    membersSound depth members ↔ ∀ m ∈ members, soundWithin depth m.2 := by
  induction members with
  | nil => simp [membersSound]
  | cons m rest ih => simp [membersSound, ih]

/-- An object of scalars can be held. -/
theorem isSound_arrange (h : (members.map (·.1)).Nodup) (hscalar : ∀ m ∈ members, Scalar m.2) :
    isSound (w.arrange (.object members)) := by
  obtain ⟨others, heq, hperm⟩ := w.object members h
  have hsound : membersSound (deepest - 1) others := membersSound_iff.mpr fun m hm => by
    obtain ⟨m', hm', rfl⟩ := List.mem_map.mp (hperm.mem_iff.mp hm)
    exact (hscalar m' hm').soundWithin_arrange w _
  rw [heq, isSound, soundWithin, hsound]
  rfl

/-- **The kind of an action is found wherever it stands**, as no part has its name. -/
theorem actionParts_arrange {kind : String} (h : ("action_type" :: members.map (·.1)).Nodup) :
    actionParts (w.arrange (encodeKind kind members)) =
      some (kind, w.arrange (encodeKind kind members)) := by
  obtain ⟨others, heq, hperm⟩ := w.object (("action_type", .string kind) :: members) h
  have hrest : (members.map fun m => (m.1, w.arrange m.2)).filter (·.1 == "action_type") = [] := by
    rw [List.filter_eq_nil_iff]
    intro m hm hname
    obtain ⟨m', hm', rfl⟩ := List.mem_map.mp hm
    exact (List.nodup_cons.mp h).1 (List.mem_map.mpr ⟨m', hm', by simpa using hname⟩)
  have hkind : others.filter (·.1 == "action_type") = [("action_type", .string kind)] := by
    refine List.perm_singleton.mp ((hperm.filter _).trans (.of_eq ?_))
    rw [List.map_cons, List.filter_cons_of_pos (by simp), hrest, w.string]
  rw [encodeKind, heq, actionParts, hkind]

instance : LawfulWire Action where
  decode_arrange w a := by
    cases a
    all_goals
      show decode (w.arrange (encodeKind _ _)) = _
      dsimp only [decode]
      rw [actionParts_arrange (by simp), encodeKind, isSound_arrange (by simp)]
      -- the kind selects the record that is read
      · show (record? _ _ >>= _) = _
        simp [List.lookup_cons]
      · simp [Scalar.string]

/-! ## The whole format -/

/-- A value is read back from what is written of it. -/
structure ReadsBack {α : Type} [Wire α] (a : α) : Prop where
  value : decode (encode a) = some a
  /-- From a text. -/
  text : decodeText (encode a) = some a
  /-- From a tree, which holds members in the order of their names. -/
  tree : decode (encode a).settle = some a

/-- A lawful form reads back as it is written and in the order of names, so its text is all
that is left to look at. -/
theorem ReadsBack.of_lawful {α : Type} [Wire α] [LawfulWire α] {a : α}
    (htext : decodeText (encode a) = some a) : ReadsBack a :=
  ⟨decode_arrange .asWritten a, htext, decode_arrange .byName a⟩

/-- **What is written is read back**: every state of a game, and every action, event,
step, rejection, rule set and configuration. -/
theorem wire_reads_back :
    (∀ g : Game, ReadsBack g) ∧ (∀ a : Action, ReadsBack a) ∧ (∀ e : Event, ReadsBack e) ∧
      (∀ s : Step, ReadsBack s) ∧ (∀ r : Rejection, ReadsBack r) ∧ (∀ r : Rules, ReadsBack r) ∧
      ∀ c : Configuration, ReadsBack c := by
  refine ⟨fun g => .of_lawful ?_, fun a => .of_lawful ?_, fun e => .of_lawful ?_,
    fun s => .of_lawful ?_, fun r => .of_lawful ?_, fun r => .of_lawful ?_, fun c => .of_lawful ?_⟩
  · exact decode_arrange .asWritten g
  · exact decode_arrange .asWritten a
  · exact (decode_arrange_event .asWritten e).2
  · exact (decode_arrange_step .asWritten s).2
  · exact (decode_arrange_rejection .asWritten r).2
  · exact decode_arrange .asWritten r
  · exact decode_arrange .asWritten c

end Wire

end SecretHitler
