/-
What the members of a node come to.

A node is kept as an object with its members in any order.  Its tag is given by one of them, its
text or each of its branches by at most one, a branch under either of its keys (`branchKeys`); what
is not given is empty, and members that the node does not know are passed over.  The loops over the
members are described field by field, in terms of `Sole`, so that no later proof goes through the
members again.
-/
import MessageTemplate.Proofs.Json.Fields
import MessageTemplate.Tree.Written

set_option autoImplicit false

namespace MessageTemplate

open Json

namespace Content

/-! ## Keys -/

/-- The keys of a `Branch`: its own and its older one. -/
def branchKeys : Branch → List String
  | .condition => ["condition", "condBranch"]
  | .consequent => ["then", "thenBranch"]
  | .alternative => ["else", "elseBranch"]

/-- The keys of every field of a `Kind`. -/
def fieldKeys : Kind → List (List String)
  | .text => [["text"]]
  | .conditional => Branch.all.map branchKeys

/-- `branchOfKey?` gives a branch for a key if it is one of the branch's two. -/
theorem branchOfKey?_eq_some {key : String} {b : Branch} :
    branchOfKey? key = some b ↔ key ∈ branchKeys b := by
  unfold branchOfKey?
  split
  case isTrue h =>
    rcases h with rfl | rfl
    · cases b <;> decide
    · cases b <;> decide
  case isFalse hcondition =>
    split
    case isTrue h =>
      rcases h with rfl | rfl
      · cases b <;> decide
      · cases b <;> decide
    case isFalse hconsequent =>
      split
      case isTrue h =>
        rcases h with rfl | rfl
        · cases b <;> decide
        · cases b <;> decide
      case isFalse halternative =>
        refine ⟨nofun, fun hkey => ?_⟩
        cases b with
        | condition => exact absurd (by simpa [branchKeys] using hkey) hcondition
        | consequent => exact absurd (by simpa [branchKeys] using hkey) hconsequent
        | alternative => exact absurd (by simpa [branchKeys] using hkey) halternative

theorem ne_tagKey_of_mem_fieldKeys {k : Kind} {keys : List String} (h : keys ∈ fieldKeys k) :
    ∀ key ∈ keys, key ∉ [union.tagKey] := by
  cases k with
  | text =>
    revert keys
    decide
  | conditional =>
    revert keys
    decide

/-! ## Fields of a kept node -/

namespace Branches

theorem get?_put_self (s : Branches) (b : Branch) (forest : List Content) :
    (s.put b forest).get? b = some forest := by
  cases b with
  | condition => rfl
  | consequent => rfl
  | alternative => rfl

theorem get?_put_of_ne (s : Branches) {b b' : Branch} (h : b' ≠ b) (forest : List Content) :
    (s.put b forest).get? b' = s.get? b' := by
  cases b with
  | condition => cases b' <;> first | rfl | exact absurd rfl h
  | consequent => cases b' <;> first | rfl | exact absurd rfl h
  | alternative => cases b' <;> first | rfl | exact absurd rfl h

/-- Branches found so far are known by `get?`, one by one. -/
theorem ext_get? {s s' : Branches} (h : ∀ b, s.get? b = s'.get? b) : s = s' := by
  obtain ⟨c, t, e⟩ := s
  obtain ⟨c', t', e'⟩ := s'
  have hc : c = c' := h .condition
  have ht : t = t' := h .consequent
  have he : e = e' := h .alternative
  rw [hc, ht, he]

end Branches

/-- `textField` succeeds if the text of a text node is given at most once (`Sole`) and is a text or
null. -/
theorem textField_eq_ok (members : List (String × Value)) : ∀ {found : Option String} {s : String},
    textField found members = .ok s ↔
      ∃ given, Sole textOf found (givenBy ["text"] members) given ∧ s = given.getD "" := by
  induction members with
  | nil =>
    intro found s
    simp only [textField, givenBy, List.filter_nil, sole_nil, exists_eq_left, Except.ok.injEq]
    exact eq_comm
  | cons m rest ih =>
    intro found s
    obtain ⟨key, v⟩ := m
    rw [textField]
    by_cases hkey : key = "text"
    · simp only [if_pos hkey, givenBy_cons_of_mem (List.mem_singleton.mpr hkey), sole_cons]
      cases found with
      | some text => simp
      | none =>
        cases hv : textOf v with
        | error cause => simp
        | ok text => simp [ih]
    · rw [if_neg hkey, givenBy_cons_of_notMem (mt List.mem_singleton.mp hkey), ih]

/-- `branchFields` succeeds if every branch is given at most once (`Sole`), under whichever of its
keys, and is a forest or null.  The induction is on the members; each of them gives one branch or
none, and the others do not notice. -/
theorem branchFields_eq_ok (members : List (String × Value)) : ∀ {found final : Branches},
    branchFields found members = .ok final ↔
      ∀ b, Sole forestOf (found.get? b) (givenBy (branchKeys b) members) (final.get? b) := by
  induction members with
  | nil =>
    intro found final
    simp only [branchFields, givenBy, List.filter_nil, sole_nil, Except.ok.injEq]
    constructor
    · rintro rfl b
      rfl
    · exact fun h => (Branches.ext_get? h).symm
  | cons m rest ih =>
    intro found final
    obtain ⟨key, v⟩ := m
    rw [branchFields]
    cases hkey : branchOfKey? key with
    | none =>
      -- The member is passed over, and it gives no branch.
      have hnot : ∀ b, key ∉ branchKeys b := fun b hb => by
        rw [← branchOfKey?_eq_some, hkey] at hb
        cases hb
      simp only [givenBy_cons_of_notMem (hnot _), ih]
    | some b =>
      -- The member gives this branch and no other, so the others are left to the rest.
      have hmem : key ∈ branchKeys b := branchOfKey?_eq_some.mp hkey
      have hnot : ∀ b', b' ≠ b → key ∉ branchKeys b' := fun b' hne hb' => by
        rw [← branchOfKey?_eq_some, hkey, Option.some.injEq] at hb'
        exact hne hb'.symm
      dsimp only
      constructor
      · intro h
        split at h
        case isTrue => cases h
        case isFalse hnew =>
          split at h
          case h_1 => cases h
          case h_2 forest hforest =>
            intro b'
            have hrest := ih.mp h b'
            by_cases hb : b' = b
            · subst hb
              rw [Branches.get?_put_self] at hrest
              rw [givenBy_cons_of_mem hmem, sole_cons]
              exact ⟨by simpa using hnew, forest, hforest, hrest⟩
            · rw [Branches.get?_put_of_ne _ hb] at hrest
              rw [givenBy_cons_of_notMem (hnot b' hb)]
              exact hrest
      · intro h
        have hb := h b
        rw [givenBy_cons_of_mem hmem, sole_cons] at hb
        obtain ⟨hnone, forest, hforest, hsole⟩ := hb
        rw [hnone, if_neg (by simp), hforest]
        dsimp only
        refine ih.mpr fun b' => ?_
        by_cases hb : b' = b
        · subst hb
          rw [Branches.get?_put_self]
          exact hsole
        · have hrest := h b'
          rw [givenBy_cons_of_notMem (hnot b' hb)] at hrest
          rw [Branches.get?_put_of_ne _ hb]
          exact hrest

/-- The members come to a `text` if at most one of them gives it.  Without any the text is empty. -/
theorem ofParts_text_eq_ok {members : List (String × Value)} {c : Content} :
    ofParts .text (.fields members) = .ok c ↔
      ∃ given, Sole textOf none (givenBy ["text"] members) given ∧ c = .text (given.getD "") := by
  rw [ofParts, Outcome.map_eq_ok]
  simp only [textField_eq_ok]
  constructor
  · rintro ⟨s, ⟨given, hgiven, rfl⟩, rfl⟩
    exact ⟨given, hgiven, rfl⟩
  · rintro ⟨given, hgiven, rfl⟩
    exact ⟨_, ⟨given, hgiven, rfl⟩, rfl⟩

/-- The members come to a `conditional` if at most one of them gives each branch. -/
theorem ofParts_conditional_eq_ok {members : List (String × Value)} {c : Content} :
    ofParts .conditional (.fields members) = .ok c ↔
      ∃ s : Branches, (∀ b, Sole forestOf none (givenBy (branchKeys b) members) (s.get? b)) ∧
        c = s.node := by
  have hempty : ∀ b, Branches.get? {} b = none := fun b => by cases b <;> rfl
  rw [ofParts, Outcome.map_eq_ok]
  simp only [branchFields_eq_ok, hempty]
  constructor
  · rintro ⟨s, hs, rfl⟩
    exact ⟨s, hs, rfl⟩
  · rintro ⟨s, hs, rfl⟩
    exact ⟨s, hs, rfl⟩

/-- The tag among the members changes nothing of what the fields come to, so it may be left out
(`besides`). -/
theorem ofParts_besides {k : Kind} {members : List (String × Value)} {c : Content} :
    ofParts k (.fields (besides [union.tagKey] members)) = .ok c ↔
      ofParts k (.fields members) = .ok c := by
  cases k with
  | text =>
    have hkeys : ["text"] ∈ fieldKeys .text := by decide
    rw [ofParts_text_eq_ok, ofParts_text_eq_ok, givenBy_besides (ne_tagKey_of_mem_fieldKeys hkeys)]
  | conditional =>
    have hkeys : ∀ b, branchKeys b ∈ fieldKeys .conditional := by
      intro b
      cases b <;> decide
    have hgiven : ∀ b, givenBy (branchKeys b) (besides [union.tagKey] members) =
        givenBy (branchKeys b) members :=
      fun b => givenBy_besides (ne_tagKey_of_mem_fieldKeys (hkeys b))
    rw [ofParts_conditional_eq_ok, ofParts_conditional_eq_ok]
    simp only [hgiven]

/-- An object is a node (`ofValue`) exactly if one member gives its kind and the fields come to a
node of that kind. -/
theorem ofValue_object_eq_ok {members : List (String × Value)} {c : Content} :
    ofValue (.object members) = .ok c ↔
      ∃ k, Sole union.ofTagValue none (givenBy [union.tagKey] members) (some k) ∧
        ofParts k (.fields members) = .ok c := by
  simp only [← union.tagOf_eq_ok]
  rw [ofValue, TaggedUnion.kindOf]
  cases union.tagOf none members with
  | error cause => simp
  | ok k => cases k <;> simp [ofParts]

/-- An array is a node (`ofValue`) exactly if its first item gives the kind and the others come to a
node of that kind. -/
theorem ofValue_array_eq_ok {tag : Value} {items : List Value} {c : Content} :
    ofValue (.array (tag :: items)) = .ok c ↔
      ∃ k, union.ofTagValue tag = .ok k ∧ ofParts k (.positional items) = .ok c := by
  rw [ofValue]
  cases union.ofTagValue tag with
  | error cause => simp
  | ok k => cases k <;> simp [ofParts]

/-- `nodesOf` reads the items of a forest one after the other, and the first that is no node is the
answer for all. -/
theorem nodesOf_eq_mapM (items : List Value) : nodesOf items = items.mapM ofValue := by
  induction items with
  | nil => rfl
  | cons v rest ih =>
    rw [nodesOf, ih, List.mapM_cons]
    cases ofValue v with
    | error cause => rfl
    | ok n =>
      cases rest.mapM ofValue with
      | error cause => rfl
      | ok more => rfl

theorem forestOf_of_branchItems {v : Value} {total : Nat} (items : List Value) :
    ∀ {order : List Branch} {found final : Branches},
      branchItems order total found items = .ok final → v ∈ items →
        ∃ forest, forestOf v = .ok forest := by
  induction items with
  | nil => exact fun _ hv => absurd hv List.not_mem_nil
  | cons v' rest ih =>
    intro order found final h hv
    cases order with
    | nil =>
      rw [branchItems] at h
      exact absurd h nofun
    | cons b more =>
      rw [branchItems] at h
      split at h
      case h_1 => exact absurd h nofun
      case h_2 forest hforest =>
        rcases List.mem_cons.mp hv with rfl | hv
        · exact ⟨forest, hforest⟩
        · exact ih h hv

end Content

end MessageTemplate
