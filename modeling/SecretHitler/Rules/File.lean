import SecretHitler.Rules.Validity
import SecretHitler.Toml.Document
/-!
# Rules files

A rules file is a TOML document. Every field may be left out and then takes
its standard value; what is not known is passed over. The rules of a session
come from the first file at hand that reads as valid rules, and are the
standard ones if there is none.
-/

namespace SecretHitler

namespace Toml

namespace Value

/-- A 32-bit word. -/
def word32? : Value → Option UInt32
  | integer n => if 0 ≤ n ∧ n < UInt32.size then some (.ofNat n.toNat) else none
  | _ => none

/-- A 64-bit word. -/
def word64? : Value → Option UInt64
  | integer n => if 0 ≤ n ∧ n < UInt64.size then some (.ofNat n.toNat) else none
  | _ => none

/-- A truth value. -/
def boolean? : Value → Option Bool
  | boolean b => some b
  | _ => none

/-- The items of an array. -/
def items? : Value → Option (List Value)
  | array items => some items
  | _ => none

/-- The members of a table, or of an array that gives fields in their order. -/
def record? (fields : List String) : Value → Option (List (String × Value))
  | table members => some members
  | array items => some (fields.zip items)
  | _ => none

/-- A named power, or a table whose one member is named for it and empty. -/
def power? (v : Value) : Option Power := do
  let name ← match v with
    | string name => some name
    | table [(name, table [])] => some name
    | table [(name, array [])] => some name
    | _ => none
  [ ("investigate_party", Power.investigateParty), ("special_election", .specialElection),
    ("policy_peek", .policyPeek), ("execution", .execution) ].lookup name

end Value

/-- A field that must be there. -/
def required {α : Type} (ms : List (String × Value)) (field : String)
    (read : Value → Option α) : Option α :=
  (ms.lookup field).bind read

/-- A field that has a value when it is not there. -/
def orDefault {α : Type} (ms : List (String × Value)) (field : String) (default : α)
    (read : Value → Option α) : Option α :=
  match ms.lookup field with
  | none => some default
  | some v => read v

end Toml

open Toml

/-- A space of the fascist track in a rules file. -/
def PowerSlot.ofToml (v : Value) : Option PowerSlot := do
  let ms ← v.record? ["fascist_policies", "power"]
  return ⟨← required ms "fascist_policies" Value.word32?, ← required ms "power" Value.power?⟩

/-- A bracket in a rules file. -/
def Bracket.ofToml (v : Value) : Option Bracket := do
  let ms ← v.record?
    ["min_players", "max_players", "fascists", "hitler_knows_fascists", "powers"]
  return {
    minPlayers := ← required ms "min_players" Value.word64?
    maxPlayers := ← required ms "max_players" Value.word64?
    fascists := ← required ms "fascists" Value.word64?
    hitlerKnowsFascists := ← orDefault ms "hitler_knows_fascists" false Value.boolean?
    powers := ← orDefault ms "powers" [] fun v =>
      v.items?.bind fun slots => slots.mapM PowerSlot.ofToml }

/-- Why a rules file gives no rules. -/
inductive RulesError
  | unreadable
  | malformed
  | invalid (flaw : Flaw)
deriving DecidableEq, Inhabited

namespace Rules

/-- The rules in the top table of a document. -/
def ofToml (ms : List (String × Value)) : Option Rules := do
  let s := standard
  return {
    minPlayers := ← orDefault ms "min_players" s.minPlayers Value.word64?
    maxPlayers := ← orDefault ms "max_players" s.maxPlayers Value.word64?
    liberalGoal := ← orDefault ms "liberal_policy_goal" s.liberalGoal Value.word32?
    fascistGoal := ← orDefault ms "fascist_policy_goal" s.fascistGoal Value.word32?
    hitlerThreshold := ← orDefault ms "hitler_chancellor_threshold" s.hitlerThreshold fun v =>
      v.word32?.map some
    vetoThreshold := ← orDefault ms "veto_unlock_threshold" s.vetoThreshold Value.word32?
    chaosThreshold := ← orDefault ms "chaos_threshold" s.chaosThreshold Value.word32?
    brackets := ← orDefault ms "brackets" s.brackets fun v =>
      v.items?.bind fun brackets => brackets.mapM Bracket.ofToml }

/-- The valid rules of a text. -/
def parse (text : String) : Except RulesError Rules :=
  match (document? text).bind ofToml with
  | none => .error .malformed
  | some r =>
    match r.flaw with
    | some flaw => .error (.invalid flaw)
    | none => .ok r

/-- The valid rules of a file, of which the content is given, or none if there
is no such file. -/
def load (content : Option ByteArray) : Except RulesError Rules :=
  match content.bind String.fromUTF8? with
  | none => .error .unreadable
  | some text => parse text

/-- The rules of the first file that has valid ones, or else the standard
rules. -/
def discover (files : List (Option ByteArray)) : Rules :=
  (files.findSome? fun content => (load content).toOption).getD standard

end Rules

end SecretHitler
