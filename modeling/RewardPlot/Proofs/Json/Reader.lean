import RewardPlot.Json.Reader
import RewardPlot.Proofs.Text.Splitting
/-!
# Reading what blocks hold

A record whose members come one after another is read member by member, and an array item
by item.
-/

namespace RewardPlot.Json

/-- The tokens of a block: its marks, and commas between the items. -/
def blockTokens (first last : Token) (items : List (List Token)) : List Token :=
  first :: ([Token.comma].intercalate items ++ [last])

/-- The items that follow the first one, each after its comma. -/
def commaTokens (items : List (List Token)) : List Token := items.flatMap (Token.comma :: ·)

theorem intercalate_comma (first : List Token) (items : List (List Token)) :
    [Token.comma].intercalate (first :: items) = first ++ commaTokens items :=
  Text.intercalate_cons _ _ _

theorem length_le_commaTokens (items : List (List Token)) :
    items.length ≤ (commaTokens items).length := by
  induction items with
  | nil => exact Nat.le_refl _
  | cons first items ih =>
      rw [commaTokens, List.flatMap_cons, List.length_append, List.length_cons, List.length_cons]
      rw [commaTokens] at ih
      omega

/-! ## Records -/

section Records

variable {α β : Type} {fields : List (Member α)}

/-- A member is taken from tokens that begin with its name, whatever follows them. -/
structure TakesMember (fields : List (Member α)) (a : α) (ts : List Token) (b : α) : Prop where
  named : ∃ key tail, ts = .string (some key) :: tail
  takes : ∀ rest, takeMember fields a (ts ++ rest) = .ok (b, rest)

/-- Members are taken one after another. -/
def TakesMembers (fields : List (Member α)) : α → List (List Token) → α → Prop
  | a, [], b => a = b
  | a, ts :: items, b => ∃ next, TakesMember fields a ts next ∧ TakesMembers fields next items b

theorem TakesMember.of_find {f : Member α} {a b : α} {name : String} {value : List Token}
    (hfind : fields.find? (·.name = name) = some f) (hset : f.isSet a = false)
    (htake : ∀ rest, f.take a (value ++ rest) = .ok (b, rest)) :
    TakesMember fields a (.string (some name.toList) :: .colon :: value) b := by
  refine ⟨⟨_, _, rfl⟩, fun rest => ?_⟩
  show takeMember fields a (.string (some name.toList) :: .colon :: (value ++ rest)) = _
  rw [takeMember, String.ofList_toList, hfind]
  dsimp only
  rw [hset]
  exact htake rest

theorem takeMembers_commaTokens {a b : α} {items : List (List Token)}
    (hitems : TakesMembers fields a items b) {fuel : Nat} (hfuel : items.length < fuel)
    (rest : List Token) :
    takeMembers fields fuel false a (commaTokens items ++ .closeBrace :: rest) = .ok (b, rest) := by
  induction items generalizing a fuel with
  | nil =>
      obtain rfl : a = b := hitems
      cases fuel with
      | zero => cases hfuel
      | succ fuel => rfl
  | cons ts items ih =>
      obtain ⟨next, hmember, hitems⟩ := hitems
      cases fuel with
      | zero => cases hfuel
      | succ fuel =>
          have hnext := ih hitems (Nat.lt_of_succ_lt_succ hfuel)
          have htake := hmember.takes (commaTokens items ++ .closeBrace :: rest)
          have htokens : commaTokens (ts :: items) ++ .closeBrace :: rest =
              .comma :: (ts ++ (commaTokens items ++ .closeBrace :: rest)) := by
            simp [commaTokens]
          rw [htokens, takeMembers]
          dsimp only
          rw [if_neg (by decide), htake]
          exact hnext

theorem takeMembers_intercalate {a b : α} {items : List (List Token)}
    (hitems : TakesMembers fields a items b) {fuel : Nat} (hfuel : items.length < fuel)
    (rest : List Token) :
    takeMembers fields fuel true a ([Token.comma].intercalate items ++ .closeBrace :: rest) =
      .ok (b, rest) := by
  cases fuel with
  | zero => cases hfuel
  | succ fuel =>
      cases items with
      | nil =>
          obtain rfl : a = b := hitems
          rfl
      | cons ts items =>
          obtain ⟨next, hmember, hitems⟩ := hitems
          have hnext := takeMembers_commaTokens hitems (Nat.lt_of_succ_lt_succ hfuel) rest
          have htake := hmember.takes (commaTokens items ++ .closeBrace :: rest)
          obtain ⟨key, tail, rfl⟩ := hmember.named
          rw [intercalate_comma, List.append_assoc, List.cons_append]
          rw [List.cons_append] at htake
          rw [takeMembers]
          dsimp only
          rw [if_pos rfl, htake]
          · exact hnext
          · simp
          · simp

theorem readRecord_block {start b : α} {finish : α → Option β} {x : β}
    {items : List (List Token)} (hitems : TakesMembers fields start items b)
    (hfinish : finish b = some x) (rest : List Token) :
    readRecord fields start finish (blockTokens .openBrace .closeBrace items ++ rest) =
      .ok (x, rest) := by
  have hlength : items.length <
      ([Token.comma].intercalate items ++ .closeBrace :: rest).length + 1 := by
    cases items with
    | nil => exact Nat.succ_pos _
    | cons ts items =>
        obtain ⟨next, hmember, -⟩ := hitems
        obtain ⟨key, tail, rfl⟩ := hmember.named
        have hle := length_le_commaTokens items
        rw [intercalate_comma, List.length_append, List.length_append, List.length_cons,
          List.length_cons]
        omega
  have hmembers := takeMembers_intercalate hitems hlength rest
  have htokens : blockTokens .openBrace .closeBrace items ++ rest =
      .openBrace :: ([Token.comma].intercalate items ++ .closeBrace :: rest) := by
    simp [blockTokens]
  rw [htokens, readRecord, hmembers]
  dsimp only [bind, Except.bind]
  rw [hfinish]
  rfl

end Records

/-! ## Arrays -/

section Arrays

variable {α : Type} {item : Reader α}

/-- An item is read from tokens that can begin a value, whatever follows them. -/
structure ReadsItem (item : Reader α) (ts : List Token) (a : α) : Prop where
  braced : ∃ tail, ts = .openBrace :: tail
  reads : ∀ rest, item (ts ++ rest) = .ok (a, rest)

variable {γ : Type} {write : γ → List Token} {result : γ → α}

theorem takeAll_commaTokens {xs : List γ}
    (hitems : ∀ x ∈ xs, ReadsItem item (write x) (result x)) {fuel : Nat}
    (hfuel : xs.length < fuel) (rest : List Token) :
    takeAll item fuel false (commaTokens (xs.map write) ++ .closeBracket :: rest) =
      .ok (xs.map result, rest) := by
  induction xs generalizing fuel with
  | nil =>
      cases fuel with
      | zero => cases hfuel
      | succ fuel => rfl
  | cons x xs ih =>
      cases fuel with
      | zero => cases hfuel
      | succ fuel =>
          have hitem := hitems x List.mem_cons_self
          have hnext := ih (fun y hy => hitems y (List.mem_cons_of_mem x hy))
            (Nat.lt_of_succ_lt_succ hfuel)
          have hread := hitem.reads (commaTokens (xs.map write) ++ .closeBracket :: rest)
          obtain ⟨tail, htail⟩ := hitem.braced
          have htokens : commaTokens ((x :: xs).map write) ++ .closeBracket :: rest =
              .comma :: .openBrace ::
                (tail ++ (commaTokens (xs.map write) ++ .closeBracket :: rest)) := by
            simp [commaTokens, htail]
          rw [htail, List.cons_append] at hread
          rw [htokens, takeAll]
          show (item _ >>= _) = _
          rw [hread]
          show (takeAll item fuel false _ >>= _) = _
          rw [hnext]
          rfl

theorem readArray_block {xs : List γ}
    (hitems : ∀ x ∈ xs, ReadsItem item (write x) (result x)) (rest : List Token) :
    readArray item (blockTokens .openBracket .closeBracket (xs.map write) ++ rest) =
      .ok (xs.map result, rest) := by
  cases xs with
  | nil => rfl
  | cons x xs =>
      have hitem := hitems x List.mem_cons_self
      obtain ⟨tail, htail⟩ := hitem.braced
      have hread := hitem.reads (commaTokens (xs.map write) ++ .closeBracket :: rest)
      have hlength : xs.length <
          (tail ++ (commaTokens (xs.map write) ++ .closeBracket :: rest)).length + 1 := by
        have hle := length_le_commaTokens (xs.map write)
        rw [List.length_map] at hle
        rw [List.length_append, List.length_append]
        omega
      have hnext := takeAll_commaTokens (fun y hy => hitems y (List.mem_cons_of_mem x hy))
        hlength rest
      have htokens : blockTokens .openBracket .closeBracket ((x :: xs).map write) ++ rest =
          .openBracket :: .openBrace ::
            (tail ++ (commaTokens (xs.map write) ++ .closeBracket :: rest)) := by
        rw [blockTokens, List.map_cons, intercalate_comma, htail]
        simp
      rw [htail, List.cons_append] at hread
      rw [htokens, readArray, takeAll]
      show (item _ >>= _) = _
      rw [hread]
      show (takeAll item _ false _ >>= _) = _
      rw [List.length_cons, hnext]
      rfl

end Arrays

end RewardPlot.Json
