import SecretHitler.Proofs.Arrangement
import SecretHitler.Table.Filling
import SecretHitler.Wire.Terms
/-!
# Lawful wire forms

A wire form is lawful when reading undoes writing, whatever order the members of
the written objects have come into. The law passes from the parts of a value to
the whole: a record reads each of its fields by name, an array its items in turn,
and a table the entries in any order, for a key has one numeral and a table one
entry of every key. Here it is shown of the base types and of the nouns.
-/

namespace SecretHitler

open Json

/-- A wire form that reading undoes. -/
class LawfulWire (α : Type) [Wire α] : Prop where
  decode_arrange (w : Arrangement) (a : α) : decode (w.arrange (encode a)) = some a

export LawfulWire (decode_arrange)

attribute [simp] LawfulWire.decode_arrange

namespace Wire

variable {α κ : Type} {w : Arrangement} {members : List (String × Json)}

/-! ## Fields -/

section Fields

variable [Wire α]

@[simp] theorem required_arrange (h : (members.map (·.1)).Nodup) (field : String) :
    (required (w.arrange (.object members)) field : Option α) =
      (members.lookup field).bind fun j => decode (w.arrange j) := by
  rw [required, w.member?_arrange h, Option.bind_map]
  rfl

@[simp] theorem requiredAside_arrange (h : (members.map (·.1)).Nodup) (field : String) :
    (requiredAside (w.arrange (.object members)) field : Option α) =
      (members.lookup field).bind fun j => decode (w.arrange j).emptyAsNull := by
  rw [requiredAside, w.member?_arrange h, Option.bind_map]
  rfl

/-- A field that is written does not take its standard value. -/
@[simp] theorem orDefault_arrange (h : (members.map (·.1)).Nodup) {field : String} {j : Json}
    (hj : members.lookup field = some j) (a : α) :
    orDefault (w.arrange (.object members)) field a = decode (w.arrange j) := by
  rw [orDefault, w.member?_arrange h, hj]
  rfl

end Fields

/-! ## Numbers, texts and lists -/

instance : LawfulWire UInt32 where
  decode_arrange w n := by
    have hlt : n.toNat < UInt32.size := n.toNat_lt
    show decode (w.arrange (.natural n.toNat)) = some n
    rw [w.natural]
    simp [decode, hlt]

instance : LawfulWire UInt64 where
  decode_arrange w n := by
    have hlt : n.toNat < UInt64.size := n.toNat_lt
    show decode (w.arrange (.natural n.toNat)) = some n
    rw [w.natural]
    simp [decode, hlt]

instance : LawfulWire Bool where
  decode_arrange w b := by simp [encode, decode]

instance : LawfulWire String where
  decode_arrange w s := by simp [encode, decode]

/-- What is made of a value that is read. -/
theorem map_decode_arrange {β : Type} [Wire α] [LawfulWire α] (w : Arrangement) (f : α → β)
    (a : α) : (decode (w.arrange (encode a))).map f = some (f a) := by
  rw [decode_arrange, Option.map_some]

instance : LawfulWire Seat where
  decode_arrange w s := map_decode_arrange w Seat.mk s.number

/-- An option of values none of which is written as null. -/
theorem decode_arrange_option [Wire α] [LawfulWire α] (hnull : (decode .null : Option α) = none)
    (w : Arrangement) (o : Option α) : decode (w.arrange (encode o)) = some o := by
  cases o with
  | none =>
    show decodeOption (w.arrange .null) = some none
    rw [w.null, decodeOption]
  | some a =>
    have ha := decode_arrange w a
    show decodeOption (w.arrange (encode a)) = some (some a)
    rw [decodeOption, ha, Option.map_some]
    intro heq
    rw [heq, hnull] at ha
    cases ha

/-- Reading one by one what was written one by one. -/
theorem mapM_written {β γ : Type} {write : β → γ} {item : γ → Option β}
    (h : ∀ b, item (write b) = some b) (l : List β) : (l.map write).mapM item = some l := by
  induction l with
  | nil => rfl
  | cons b rest ih => simp [h, ih]

/-- A list reads back if its items do. -/
theorem decodeItems_arrange [Wire α] {item : Json → Option α}
    (h : ∀ a, item (w.arrange (encode a)) = some a) (l : List α) :
    decodeItems item (w.arrange (encode l)) = some l := by
  show decodeItems item (w.arrange (.array (l.map encode))) = some l
  rw [w.array, decodeItems, List.map_map]
  exact mapM_written h l

instance [Wire α] [LawfulWire α] : LawfulWire (List α) where
  decode_arrange w l := decodeItems_arrange (decode_arrange w) l

/-! ## Tables -/

section Tables

variable [Ranked κ] [Wire α]

/-- Distinct keys are written as distinct names. -/
theorem nodup_names (t : Table κ α) : ((t.entries.map encodeEntry).map (·.1)).Nodup := by
  rw [List.map_map]
  refine t.sorted.map _ fun a b hlt heq => ?_
  have hrank : some (rank a.1) = some (rank b.1) := by
    rw [← Decimal.read?_write, ← Decimal.read?_write]
    exact congrArg Decimal.read? heq
  exact Nat.ne_of_lt hlt (Option.some.inj hrank)

variable [WireKey κ]

/-- A key reads back from the name of its member. -/
theorem decodeKey_write (k : κ) : decodeKey (Decimal.write (rank k)) = some k := by
  rw [decodeKey, Decimal.read?_write]
  exact WireKey.ofRank?_rank k

/-- **A table is read back from its entries in any order.** -/
instance [LawfulWire α] : LawfulWire (Table κ α) where
  decode_arrange w t := by
    obtain ⟨others, heq, hperm⟩ := w.object _ (nodup_names t)
    rw [List.map_map, Function.comp_def] at hperm
    -- the members are the entries in some order, each written on its own
    obtain ⟨l, rfl, hl⟩ := (congrFun₂ (List.eq_map_comp_perm _) others t.entries).mpr hperm
    have hentry (e : κ × α) : decodeEntry ((encodeEntry e).1, w.arrange (encodeEntry e).2) =
        some e := by
      simp [decodeEntry, encodeEntry, decodeKey_write]
    show decodeTable (w.arrange (.object (t.entries.map encodeEntry))) = some t
    rw [heq, decodeTable, mapM_written hentry, Option.map_some, Table.ofList_eq_of_perm hl]

end Tables

@[simp] theorem decodeSet_arrange (w : Arrangement) (s : SeatSet) :
    decodeSet (w.arrange (encodeSet s)) = some s := by
  have hentries : s.keys.map (fun seat => (seat, ())) = s.entries := by
    rw [Table.keys, List.map_map]
    exact List.map_id _
  rw [decodeSet, encodeSet, decode_arrange, Option.map_some,
    Table.ofList_eq_of_perm (.of_eq hentries)]

/-! ## Nouns -/

@[simp] theorem choice?_arrange {β : Type} (name : String) (names : List (String × β)) :
    (w.arrange (encodeName name)).choice? names = names.lookup name := by
  rw [encodeName, w.string]
  rfl

instance : LawfulWire Policy where
  decode_arrange w p := by cases p <;> simp [encode, decode, List.lookup_cons]

instance : LawfulWire Party where
  decode_arrange w p := by cases p <;> simp [encode, decode, List.lookup_cons]

instance : LawfulWire Role where
  decode_arrange w r := by cases r <;> simp [encode, decode, List.lookup_cons]

instance : LawfulWire Ballot where
  decode_arrange w b := by cases b <;> simp [encode, decode, List.lookup_cons]

instance : LawfulWire PendingPower where
  decode_arrange w p := by cases p <;> simp [encode, decode, List.lookup_cons]

instance : LawfulWire Power where
  decode_arrange w p := by cases p <;> simp [encode, decode, List.lookup_cons]

instance : LawfulWire Government where
  decode_arrange w g := by
    show decode (w.arrange (.object _)) = some g
    dsimp only [decode]
    simp [List.lookup_cons]

instance : LawfulWire (Option UInt32) := ⟨decode_arrange_option rfl⟩

instance : LawfulWire (Option Seat) := ⟨decode_arrange_option rfl⟩

instance : LawfulWire (Option Government) := ⟨decode_arrange_option rfl⟩

/-- A reason is plain, so it makes no difference whether it is set aside. -/
instance : LawfulWire Victory where
  decode_arrange w v := by
    have hnames : ([("winners", Json.string (victoryNames v).1),
      ("reason", .string (victoryNames v).2)].map (·.1)).Nodup := by simp
    obtain ⟨others, heq, -⟩ := w.object _ hnames
    show decode (w.arrange (.object _)) = some v
    rw [heq]
    dsimp only [decode]
    rw [← heq]
    cases v <;>
      simp [w.member?_arrange, victoryNames, winners, choice?, variant?, decodeReason, emptyAsNull,
        List.lookup_cons]

/-! ## Rejections -/

theorem decodeShortage_arrange (w : Arrangement) (joined need : UInt64) :
    decodeShortage (w.arrange (.object [("have", encode joined), ("need", encode need)])) =
      some (.notEnoughPlayers joined need) := by
  simp [decodeShortage, List.lookup_cons]

/-- A shortage is the one rejection that a text and a tree hold differently. -/
theorem decode_arrange_rejection (w : Arrangement) (r : Rejection) :
    decode (w.arrange (encode r)) = some r ∧ decodeText (w.arrange (encode r)) = some r := by
  cases r
  case notEnoughPlayers joined need =>
    have hshortage := decodeShortage_arrange w joined need
    have hnames : ([("have", encode joined), ("need", encode need)].map (·.1)).Nodup := by simp
    obtain ⟨others, heq, -⟩ := w.object _ hnames
    show decode (w.arrange (.object [(_, .object _)])) = _ ∧
      decodeText (w.arrange (.object [(_, .object _)])) = _
    rw [heq] at hshortage
    rw [w.arrange_variant, heq]
    exact ⟨hshortage, hshortage⟩
  case invalidPolicyIndex index =>
    have hindex := map_decode_arrange w Rejection.invalidPolicyIndex index
    show decode (w.arrange (.object [(_, encode index)])) = _ ∧
      decodeText (w.arrange (.object [(_, encode index)])) = _
    rw [w.arrange_variant]
    exact ⟨hindex, hindex⟩
  case unsupportedPlayerCount count =>
    have hcount := map_decode_arrange w Rejection.unsupportedPlayerCount count
    show decode (w.arrange (.object [(_, encode count)])) = _ ∧
      decodeText (w.arrange (.object [(_, encode count)])) = _
    rw [w.arrange_variant]
    exact ⟨hcount, hcount⟩
  all_goals
    show decode (w.arrange (.string _)) = _ ∧ decodeText (w.arrange (.string _)) = _
    rw [w.string]
    exact ⟨rfl, rfl⟩

instance : LawfulWire Rejection := ⟨fun w r => (decode_arrange_rejection w r).1⟩

end Wire

end SecretHitler
