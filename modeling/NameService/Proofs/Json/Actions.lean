import NameService.Action.Json
import NameService.Proofs.Json.Fields

/-
  Actions are read from JSON as they were written.

  An action is an object of its members and its tag. A batch holds such objects, to any
  depth, and the reader goes no deeper than the value in front of it nests. What is proved:
    1. `X.takes` — the fields of each part are taken from its members, also where the tag
       of an action or the members of a transaction stand beside them.
    2. `Action.read_toJson` — an action is read back with any fuel beyond the depth of what
       is written (`Action.ofJson_toJson`), by induction on the fuel.
-/

namespace NameService

open Json

/-! ## Parts -/

theorem Amount.ofJson_toJson (a : Amount) : ofJson a.toJson = some a := by
  refine Takes.record ?_
  refine .bind (.required List.not_mem_nil rfl rfl) ?_
  refine .bind (.required List.not_mem_nil rfl (readUInt32_ofUInt32 _)) ?_
  exact .bind (.required List.not_mem_nil rfl rfl) (.pure _)

theorem Fraction.ofJson_toJson (f : Fraction) : ofJson f.toJson = some f := by
  refine Takes.record ?_
  refine .bind (.required List.not_mem_nil rfl (readUInt32_ofUInt32 _)) ?_
  exact .bind (.required List.not_mem_nil rfl (readUInt32_ofUInt32 _)) (.pure _)

theorem readPower_ofInt64 (power : Int64) :
    readPower (.object [("power", ofInt64 power)]) = some power :=
  Takes.record (.required List.not_mem_nil rfl (readInt64_ofInt64 power))

theorem readWeight_ofUInt32 (weight : UInt32) :
    readWeight (.object [("weight", ofUInt32 weight)]) = some weight :=
  Takes.record (.required List.not_mem_nil rfl (readUInt32_ofUInt32 weight))

/-- The names of members that a transaction has beside those of its operation. -/
def Transaction.reserved : List String := ["chainId", "fee", "multisig", "kind"]

theorem Transfer.takes (t : Transfer) : Takes Transaction.reserved t.members fields t := by
  refine .bind (.required (by decide) rfl rfl) ?_
  refine .bind (.required (by decide) rfl rfl) ?_
  refine .bind (.required (by decide) rfl (Amount.ofJson_toJson _)) ?_
  refine .bind (.optionalText (o := t.memo) (by decide) ?_) (.pure _)
  simp [members, List.lookup_cons]

theorem AccountConfiguration.takes (c : AccountConfiguration) :
    Takes Transaction.reserved c.members fields c := by
  refine .bind (.required (by decide) rfl rfl) ?_
  refine .bind (.required (by decide) rfl rfl) ?_
  refine .bind (.required (by decide) rfl rfl) ?_
  refine .bind (.required (by decide) rfl rfl) ?_
  refine .bind (.required (by decide) rfl rfl) ?_
  exact .bind (.required (by decide) rfl (readInt64_ofInt64 _)) (.pure _)

/-! ## Measures -/

theorem Measure.takes (inner : Reader Action) (measure : Measure) :
    Takes ["kind"] measure.members (Action.fields inner measure.kind) (.enact measure) := by
  cases measure with
  | textResolution resolution => exact .bind (.required (by decide) rfl rfl) (.pure _)
  | releaseEscrow escrowId amount =>
    refine .bind (.required (by decide) rfl (readId_ofId _)) ?_
    exact .bind (.required (by decide) rfl (Amount.ofJson_toJson _)) (.pure _)
  | send transfer =>
    exact .bind (transfer.takes.beside (by decide) fun _ _ => rfl) (.pure _)
  | setValidators updates =>
    exact .bind (.required (by decide) rfl (readMap_ofMap readPower_ofInt64 _)) (.pure _)
  | updateElectionRule rule =>
    refine .bind (.required (by decide) rfl (readId_ofId _)) ?_
    refine .bind (.optionalField Fraction.toJson rule.threshold (by decide) ?_
      Fraction.ofJson_toJson rfl) ?_
    · simp [members, List.lookup_cons, List.lookup_append]
    refine .bind (.optionalField Fraction.toJson rule.quorum (by decide) ?_
      Fraction.ofJson_toJson rfl) ?_
    · simp [members, List.lookup_cons, List.lookup_append]
    refine .bind (.required (by decide) ?_ (readUInt32_ofUInt32 _)) (.pure _)
    simp [members, List.lookup_cons, List.lookup_append]
  | updateElectorate electorateId electors =>
    refine .bind (.required (by decide) rfl (readId_ofId _)) ?_
    exact .bind (.required (by decide) rfl (readMap_ofMap readWeight_ofUInt32 _)) (.pure _)
  | setMessageFee path fee =>
    refine .bind (.required (by decide) rfl rfl) ?_
    exact .bind (.required (by decide) rfl (Amount.ofJson_toJson _)) (.pure _)
  | executeMigration id => exact .bind (.required (by decide) rfl rfl) (.pure _)
  | upgradeSchema package toVersion =>
    refine .bind (.required (by decide) rfl rfl) ?_
    exact .bind (.required (by decide) rfl (readUInt32_ofUInt32 _)) (.pure _)
  | configureCash c =>
    refine .bind (.required (by decide) rfl rfl) ?_
    refine .bind (.required (by decide) rfl rfl) ?_
    refine .bind (.optionalField Amount.toJson c.minimalFee (by decide) ?_
      Amount.ofJson_toJson rfl) (.pure _)
    simp [members, List.lookup_cons]
  | configureTxFee c =>
    refine .bind (.required (by decide) rfl rfl) ?_
    refine .bind (.required (by decide) rfl (readInt32_ofInt32 _)) ?_
    refine .bind (.optionalField Amount.toJson c.baseFee (by decide) ?_
      Amount.ofJson_toJson rfl) (.pure _)
    simp [members, List.lookup_cons]
  | configureUsernames c =>
    refine .bind (.required (by decide) rfl rfl) ?_
    refine .bind (.required (by decide) rfl rfl) ?_
    exact .bind (.required (by decide) rfl rfl) (.pure _)
  | configureAccounts c =>
    exact .bind (c.takes.beside (by decide) fun _ _ => rfl) (.pure _)
  | configureMessageFees c =>
    refine .bind (.required (by decide) rfl rfl) ?_
    exact .bind (.required (by decide) rfl rfl) (.pure _)

/-! ## Actions -/

namespace Json

theorem depth_le_listDepth {items : List Json} {j : Json} (h : j ∈ items) :
    j.depth ≤ listDepth items := by
  induction items with
  | nil => cases h
  | cons item rest ih =>
    rw [listDepth]
    rcases List.mem_cons.mp h with rfl | hrest
    · exact Nat.le_max_left _ _
    · exact Nat.le_trans (ih hrest) (Nat.le_max_right _ _)

end Json

namespace Action

theorem listToJson_eq_map (members : List Action) : listToJson members = members.map toJson := by
  induction members with
  | nil => rfl
  | cons member members ih => rw [listToJson, ih, List.map_cons]

theorem readKind_name (numbered : Bool) (kind : Kind) :
    readKind Kind.all Kind.name numbered (.text kind.name) = some kind := by
  cases kind <;> rfl

/-- The fields beside a tag. -/
theorem read_tagged {fuel : Nat} {numbered : Bool} {kind : Kind} {own : List (String × Json)}
    {action : Action} (h : Takes ["kind"] own (fields (read fuel true) kind) action) :
    read (fuel + 1) numbered (.object (("kind", .text kind.name) :: own)) = some action := by
  have htag : tagged? "kind" (.object (("kind", .text kind.name) :: own)) =
      some (.text kind.name, .named (("kind", .text kind.name) :: own)) := rfl
  have hfields : (Fields.named (("kind", .text kind.name) :: own)).read
      (fields (read fuel true) kind) = some action := by
    refine h.read fun name hname => ?_
    exact lookup_cons_of_ne _ _ (List.ne_of_not_mem_cons hname)
  rw [read, htag]
  show (readKind Kind.all Kind.name numbered (.text kind.name) >>= _) = some action
  rw [readKind_name]
  exact hfields

/-- An action is read back by a reader that goes as deep as what is written. -/
theorem read_toJson {fuel : Nat} {numbered : Bool} {action : Action}
    (h : action.toJson.depth < fuel) : read fuel numbered action.toJson = some action := by
  induction fuel generalizing numbered action with
  | zero => cases h
  | succ fuel ih =>
    cases action with
    | enact measure => exact read_tagged (measure.takes _)
    | batch members =>
      have hmembers : ∀ member ∈ members, read fuel true member.toJson = some member := by
        intro member hmember
        apply ih
        have hdepth : member.toJson.depth ≤ listDepth (members.map toJson) :=
          depth_le_listDepth (List.mem_map_of_mem hmember)
        simp only [toJson, listToJson_eq_map, depth, memberDepth] at h
        omega
      have hlist : readList (read fuel true) (.array (listToJson members)) = some members := by
        rw [listToJson_eq_map]
        exact readList_map hmembers
      have hfields : Takes ["kind"] [("messages", .array (listToJson members))]
          (fields (read fuel true) .batch) (.batch members) :=
        .bind (.required (by decide) rfl hlist) (.pure _)
      exact read_tagged hfields

theorem ofJson_toJson (numbered : Bool) (action : Action) :
    ofJson numbered action.toJson = some action :=
  read_toJson (Nat.lt_succ_self _)

end Action

end NameService
