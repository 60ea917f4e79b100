import MiniC.Json.Standard
import MiniC.Proofs.Numerals

/-!
# Values written and read

The text of a value is cut into the tokens of the value (`cut_spread`), and the tokens are read
as the value again (`readValue?_tokens`), so what is written spread out is read back
(`parse?_pretty`), provided that it can be read in full. So the codec that runs is lawful.
-/

namespace MiniC.Json

/-! ## Texts -/

/-- What a character is written as is read as that character. -/
theorem scanText?_escape (read : List Char) (c : Char) (rest : List Char) :
    scanText? ⟨read, none, false⟩ (escape c ++ rest) = scanText? ⟨c :: read, none, false⟩ rest := by
  unfold escape
  split
  · subst c; rfl
  split
  · subst c; rfl
  split
  · subst c; rfl
  split
  · subst c; rfl
  split
  · subst c; rfl
  split
  · subst c; rfl
  split
  · subst c; rfl
  split
  · rename_i control
    have digits : ∀ n < 0x20, Text.digitsValue? 16 0 ['0', '0', Nat.digitChar (n / 16), Nat.digitChar (n % 16)] = some n := by
      decide
    have code : ∀ n < 0x20, (Scanned.mk read none false).pushUnit n = ⟨Char.ofNat n :: read, none, false⟩ := by
      intro n small
      unfold Scanned.pushUnit
      rw [if_neg (by omega), if_neg (by omega)]
      rfl
    show scanText? _ ('\\' :: 'u' :: '0' :: '0' :: _ :: _ :: rest) = _
    rw [scanText?]
    simp only [digits _ control, code _ control, Char.ofNat_toNat]
  · rename_i quote slash _ _ _ _ _ control
    show scanText? _ (c :: rest) = _
    rw [scanText?.eq_def]
    split
    · rename_i same
      exact absurd (List.cons.inj same).1 quote
    · rename_i same
      exact absurd (List.cons.inj same).1 slash
    · rename_i same
      exact absurd (List.cons.inj same).1 slash
    · rename_i same
      cases same
      rw [if_neg (by simp [control, slash])]
      rfl
    · rename_i same
      cases same

/-- A written text is read up to its closing mark. -/
theorem scanText?_flatMap (cs read rest : List Char) :
    scanText? ⟨read, none, false⟩ (cs.flatMap escape ++ '"' :: rest) =
      some (.text (String.ofList (read.reverse ++ cs)), rest) := by
  induction cs generalizing read with
  | nil =>
    rw [List.append_nil]
    rfl
  | cons c cs ih =>
    rw [List.flatMap_cons, List.append_assoc, scanText?_escape, ih, List.reverse_cons, List.append_assoc]
    rfl

/-- A text that needs no escapes is written like the others. -/
theorem toList_writeText (s : String) : (writeText s).toList = '"' :: (s.toList.flatMap escape ++ ['"']) := by
  unfold writeText
  split
  · simp [String.toList_append]
  · rename_i plain
    have each : ∀ c ∈ s.toList, escape c = [c] := by
      intro c member
      have needless : writeText.needsEscape c = false := by
        rw [Bool.not_eq_true] at plain
        have all : s.toList.any writeText.needsEscape = false := by rw [← String.contains_bool_eq]; exact plain
        exact Bool.not_eq_true _ ▸ List.any_eq_false.mp all c member
      simp only [writeText.needsEscape, Bool.or_eq_false_iff, beq_eq_false_iff_ne, decide_eq_false_iff_not] at needless
      obtain ⟨⟨quote, slash⟩, control⟩ := needless
      have other : ∀ d : Char, d.toNat < 0x20 → c ≠ d := fun d low same => control (same ▸ low)
      unfold escape
      rw [if_neg quote, if_neg slash, if_neg (other _ (by decide)), if_neg (other _ (by decide)), if_neg (other _ (by decide)),
        if_neg (other _ (by decide)), if_neg (other _ (by decide)), if_neg control]
    have same : s.toList.flatMap escape = s.toList := by
      rw [List.flatMap_congr each]
      exact List.flatMap_singleton' _
    rw [same]
    simp [String.toList_append]

/-! ## Tokens -/

/-- A text is cut into tokens, with gaps before and between them. -/
inductive Cut : List Char → List Token → Prop
  | nil : Cut [] []
  | gap {c : Char} {cs : List Char} {ts : List Token} : isGap c = true → Cut cs ts → Cut (c :: cs) ts
  | token {c : Char} {cs rest : List Char} {t : Token} {ts : List Token} : isGap c = false →
    scanToken? (c :: cs) = some (t, rest) → rest.length ≤ cs.length → Cut rest ts → Cut (c :: cs) (t :: ts)

/-- The tokens into which a text is cut are found. -/
theorem tokens?_of_cut {cs : List Char} {ts : List Token} (cut : Cut cs ts) (found : List Token) {fuel : Nat}
    (enough : cs.length ≤ fuel) : tokens? found fuel cs = some (found.reverse ++ ts) := by
  induction cut generalizing found fuel with
  | nil => rw [tokens?, List.append_nil]
  | @gap c cs ts gap cut ih =>
    obtain ⟨fuel, rfl⟩ : ∃ n, fuel = n + 1 := ⟨fuel - 1, by rw [List.length_cons] at enough; omega⟩
    rw [tokens?, if_pos gap, ih found (Nat.le_of_succ_le_succ enough)]
  | @token c cs rest t ts solid scanned shorter cut ih =>
    obtain ⟨fuel, rfl⟩ : ∃ n, fuel = n + 1 := ⟨fuel - 1, by rw [List.length_cons] at enough; omega⟩
    rw [tokens?, if_neg (by simp [solid]), scanned]
    have := ih (t :: found) (Nat.le_trans shorter (Nat.le_of_succ_le_succ enough))
    rw [List.reverse_cons, List.append_assoc] at this
    exact this

/-- No numeral goes on in a text. -/
def Ends (cs : List Char) : Prop := ∀ c ∈ cs.head?, isNumeralPart c = false

theorem not_isGap_of_isNumeralPart {c : Char} (part : isNumeralPart c = true) : isGap c = false := by
  cases gap : isGap c with
  | false => rfl
  | true =>
    simp only [isGap, Bool.or_eq_true, beq_iff_eq] at gap
    rcases gap with ((rfl | rfl) | rfl) | rfl <;> cases part

/-- A numeral is scanned up to where it ends. -/
theorem scanToken?_append {cs rest : List Char} {n : Numeral} (scanned : Numeral.scan? cs = some (n, []))
    (parts : ∀ c ∈ cs, isNumeralPart c = true) (nonempty : cs ≠ []) (ends : Ends rest) :
    scanToken? (cs ++ rest) = some (.atom (.number (String.ofList cs)), rest) := by
  have spanned : (cs ++ rest).span isNumeralPart = (cs, rest) := by
    rw [List.span_eq_takeWhile_dropWhile, List.takeWhile_append_of_pos parts, List.dropWhile_append_of_pos parts]
    cases rest with
    | nil => simp
    | cons c rest => simp [ends c rfl]
  obtain ⟨c, cs', rfl⟩ := List.exists_cons_of_ne_nil nonempty
  have part := parts c List.mem_cons_self
  rw [scanToken?.eq_def]
  -- the first character is that of no other token
  split
  all_goals try (rename_i same; rw [(List.cons.inj same).1] at part; cases part)
  rw [spanned]
  simp only [scanned]

namespace Cut
variable {rest : List Char} {ts : List Token}

theorem newLine (level : Nat) (cut : Cut rest ts) : Cut ((newLine level).toList ++ rest) ts := by
  have blanks (n : Nat) : Cut (List.replicate n ' ' ++ rest) ts := by
    induction n with
    | zero => exact cut
    | succ n ih => exact .gap rfl ih
  unfold Json.newLine
  rw [String.toList_ofList]
  exact .gap rfl (blanks _)

theorem text (s : String) (cut : Cut rest ts) : Cut ((writeText s).toList ++ rest) (.atom (.text s) :: ts) := by
  have whole : String.ofList ([].reverse ++ s.toList) = s := String.ofList_toList
  rw [toList_writeText, List.cons_append, List.append_assoc]
  refine .token rfl ?_ (by simp; omega) cut
  show (scanText? ⟨[], none, false⟩ _).map _ = _
  rw [List.singleton_append, scanText?_flatMap, whole]
  rfl

theorem number {lexeme : String} {n : Numeral} (spelled : Numeral.ofLexeme? lexeme = some n) (ends : Ends rest)
    (cut : Cut rest ts) : Cut (lexeme.toList ++ rest) (.atom (.number lexeme) :: ts) := by
  obtain ⟨scanned, nonempty, parts⟩ := Numeral.scan?_of_ofLexeme? spelled
  have same : String.ofList lexeme.toList = lexeme := String.ofList_toList
  have token := scanToken?_append scanned parts nonempty ends
  obtain ⟨c, cs, whole⟩ := List.exists_cons_of_ne_nil nonempty
  rw [same, whole, List.cons_append] at token
  rw [whole, List.cons_append]
  exact .token (not_isGap_of_isNumeralPart (parts c (by rw [whole]; exact List.mem_cons_self))) token (by simp) cut

end Cut

/-! ## The tokens of a value -/

mutual

/-- The tokens of a value. -/
def tokens : Json → List Token
  | .list [] => [.openList, .closeList]
  | .list (item :: rest) => .openList :: (item.tokens ++ itemTokens rest)
  | .object [] => [.openObject, .closeObject]
  | .object ((key, value) :: rest) =>
    .openObject :: .atom (.text key) :: .colon :: (value.tokens ++ fieldTokens rest)
  | j => [.atom j]

/-- The tokens of the items after the first, and of the end of their list. -/
def itemTokens : List Json → List Token
  | [] => [.closeList]
  | item :: rest => .comma :: (item.tokens ++ itemTokens rest)

/-- The tokens of the fields after the first, and of the end of their object. -/
def fieldTokens : List (String × Json) → List Token
  | [] => [.closeObject]
  | (key, value) :: rest => .comma :: .atom (.text key) :: .colon :: (value.tokens ++ fieldTokens rest)

end

/-! ## Writing -/

mutual

/-- What is written already stands in front. -/
theorem spreadOnto_eq (out : String) (level : Nat) : ∀ j : Json, spreadOnto out level j = out ++ spreadOnto "" level j
  | .null | .broken | .bool _ | .number _ | .text _ | .list [] | .object [] => by simp [spreadOnto]
  | .list (item :: rest) => by
    simp only [spreadOnto]
    rw [spreadOnto_eq (out ++ _ ++ _), spreadOnto_eq ("" ++ _ ++ _), spreadItems_eq (out ++ _ ++ _ ++ _),
      spreadItems_eq ("" ++ _ ++ _ ++ _)]
    simp [String.append_assoc]
  | .object ((key, value) :: rest) => by
    simp only [spreadOnto]
    rw [spreadOnto_eq (out ++ _ ++ _ ++ _ ++ _), spreadOnto_eq ("" ++ _ ++ _ ++ _ ++ _),
      spreadFields_eq (out ++ _ ++ _ ++ _ ++ _ ++ _), spreadFields_eq ("" ++ _ ++ _ ++ _ ++ _ ++ _)]
    simp [String.append_assoc]

@[inherit_doc spreadOnto_eq]
theorem spreadItems_eq (out : String) (level : Nat) :
    ∀ items : List Json, spreadItems out level items = out ++ spreadItems "" level items
  | [] => by simp [spreadItems]
  | item :: rest => by
    simp only [spreadItems]
    rw [spreadOnto_eq (out ++ _ ++ _), spreadOnto_eq ("" ++ _ ++ _), spreadItems_eq (out ++ _ ++ _ ++ _),
      spreadItems_eq ("" ++ _ ++ _ ++ _)]
    simp [String.append_assoc]

@[inherit_doc spreadOnto_eq]
theorem spreadFields_eq (out : String) (level : Nat) :
    ∀ fields : List (String × Json), spreadFields out level fields = out ++ spreadFields "" level fields
  | [] => by simp [spreadFields]
  | (key, value) :: rest => by
    simp only [spreadFields]
    rw [spreadOnto_eq (out ++ _ ++ _ ++ _ ++ _), spreadOnto_eq ("" ++ _ ++ _ ++ _ ++ _),
      spreadFields_eq (out ++ _ ++ _ ++ _ ++ _ ++ _), spreadFields_eq ("" ++ _ ++ _ ++ _ ++ _ ++ _)]
    simp [String.append_assoc]

end

section
variable (level : Nat)

theorem toList_spread_list (item : Json) (items : List Json) : (spreadOnto "" level (.list (item :: items))).toList =
    '[' :: ((newLine (level + 1)).toList ++ ((spreadOnto "" (level + 1) item).toList ++
      ((spreadItems "" (level + 1) items).toList ++ ((newLine level).toList ++ [']'])))) := by
  simp only [spreadOnto]
  rw [spreadOnto_eq ("" ++ _ ++ _), spreadItems_eq ("" ++ _ ++ _ ++ _)]
  simp

theorem toList_spread_object (key : String) (value : Json) (fields : List (String × Json)) :
    (spreadOnto "" level (.object ((key, value) :: fields))).toList =
      '\x7b' :: ((newLine (level + 1)).toList ++ ((writeText key).toList ++ (':' :: ' ' ::
        ((spreadOnto "" (level + 1) value).toList ++ ((spreadFields "" (level + 1) fields).toList ++
          ((newLine level).toList ++ ['\x7d'])))))) := by
  simp only [spreadOnto]
  rw [spreadOnto_eq ("" ++ _ ++ _ ++ _ ++ _), spreadFields_eq ("" ++ _ ++ _ ++ _ ++ _ ++ _)]
  simp

theorem toList_spreadItems_cons (item : Json) (items : List Json) : (spreadItems "" level (item :: items)).toList =
    ',' :: ((newLine level).toList ++ ((spreadOnto "" level item).toList ++ (spreadItems "" level items).toList)) := by
  simp only [spreadItems]
  rw [spreadOnto_eq ("" ++ _ ++ _), spreadItems_eq ("" ++ _ ++ _ ++ _)]
  simp

theorem toList_spreadFields_cons (key : String) (value : Json) (fields : List (String × Json)) :
    (spreadFields "" level ((key, value) :: fields)).toList =
      ',' :: ((newLine level).toList ++ ((writeText key).toList ++ (':' :: ' ' ::
        ((spreadOnto "" level value).toList ++ (spreadFields "" level fields).toList)))) := by
  simp only [spreadFields]
  rw [spreadOnto_eq ("" ++ _ ++ _ ++ _ ++ _), spreadFields_eq ("" ++ _ ++ _ ++ _ ++ _ ++ _)]
  simp

theorem ends_spreadItems (items : List Json) (rest : List Char) :
    Ends ((spreadItems "" (level + 1) items).toList ++ ((newLine level).toList ++ rest)) := by
  cases items with
  | nil =>
    simp only [Ends, spreadItems, newLine, String.toList_ofList]
    rintro c ⟨⟩
    rfl
  | cons item items =>
    rw [toList_spreadItems_cons]
    rintro c ⟨⟩
    rfl

theorem ends_spreadFields (fields : List (String × Json)) (rest : List Char) :
    Ends ((spreadFields "" (level + 1) fields).toList ++ ((newLine level).toList ++ rest)) := by
  cases fields with
  | nil =>
    simp only [Ends, spreadFields, newLine, String.toList_ofList]
    rintro c ⟨⟩
    rfl
  | cons field fields =>
    obtain ⟨key, value⟩ := field
    rw [toList_spreadFields_cons]
    rintro c ⟨⟩
    rfl

end

mutual

/-- The text of a value that can be read in full is cut into the tokens of the value. -/
theorem cut_spread {depth : Nat} (level : Nat) {rest : List Char} {ts : List Token} : ∀ {j : Json}, j.readable depth = true →
    Ends rest → Cut rest ts → Cut ((spreadOnto "" level j).toList ++ rest) (j.tokens ++ ts)
  | .null, _, _, cut => by
    simp only [spreadOnto, tokens]
    exact .token rfl rfl (by simp; omega) cut
  | .bool true, _, _, cut => by
    simp only [spreadOnto, tokens]
    exact .token rfl rfl (by simp; omega) cut
  | .bool false, _, _, cut => by
    simp only [spreadOnto, tokens]
    exact .token rfl rfl (by simp; omega) cut
  | .broken, readable, _, _ => by cases readable
  | .number lexeme, readable, ends, cut => by
    obtain ⟨x, found⟩ := Option.isSome_iff_exists.mp readable
    obtain ⟨n, spelled, -⟩ : ∃ n, Numeral.ofLexeme? lexeme = some n ∧ n.number? = some x := Option.bind_eq_some_iff.mp found
    simp only [spreadOnto, tokens, String.empty_append]
    exact cut.number spelled ends
  | .text s, _, _, cut => by
    simp only [spreadOnto, tokens, String.empty_append]
    exact cut.text s
  | .list [], _, _, cut => by
    simp only [spreadOnto, tokens]
    exact .token rfl rfl (by simp) (.token rfl rfl (by simp) cut)
  | .object [], _, _, cut => by
    simp only [spreadOnto, tokens]
    exact .token rfl rfl (by simp) (.token rfl rfl (by simp) cut)
  | .list (item :: items), readable, _, cut => by
    simp only [Json.readable, readableItems, Bool.and_eq_true] at readable
    have others := cut_spreadItems level readable.2.2 cut
    have first := cut_spread (level + 1) readable.2.1 (ends_spreadItems level items _) others
    rw [toList_spread_list, tokens]
    simpa using Cut.token rfl rfl (Nat.le_refl _) (first.newLine (level + 1))
  | .object ((key, value) :: fields), readable, _, cut => by
    simp only [Json.readable, readableFields, Bool.and_eq_true] at readable
    have others := cut_spreadFields level readable.2.2 cut
    have first := cut_spread (level + 1) readable.2.1 (ends_spreadFields level fields _) others
    have colon := Cut.token (c := ':') rfl rfl (Nat.le_refl _) (first.gap (c := ' ') rfl)
    rw [toList_spread_object, tokens]
    simpa using Cut.token rfl rfl (Nat.le_refl _) ((colon.text key).newLine (level + 1))

theorem cut_spreadItems {depth : Nat} (level : Nat) {rest : List Char} {ts : List Token} : ∀ {items : List Json},
    readableItems depth items = true → Cut rest ts →
      Cut ((spreadItems "" (level + 1) items).toList ++ ((newLine level).toList ++ ']' :: rest)) (itemTokens items ++ ts)
  | [], _, cut => by
    simp only [spreadItems, itemTokens]
    exact (Cut.token rfl rfl (Nat.le_refl _) cut).newLine level
  | item :: items, readable, cut => by
    simp only [readableItems, Bool.and_eq_true] at readable
    have others := cut_spreadItems level readable.2 cut
    have first := cut_spread (level + 1) readable.1 (ends_spreadItems level items _) others
    rw [toList_spreadItems_cons, itemTokens]
    simpa using Cut.token rfl rfl (Nat.le_refl _) (first.newLine (level + 1))

theorem cut_spreadFields {depth : Nat} (level : Nat) {rest : List Char} {ts : List Token} : ∀ {fields : List (String × Json)},
    readableFields depth fields = true → Cut rest ts →
      Cut ((spreadFields "" (level + 1) fields).toList ++ ((newLine level).toList ++ '\x7d' :: rest)) (fieldTokens fields ++ ts)
  | [], _, cut => by
    simp only [spreadFields, fieldTokens]
    exact (Cut.token rfl rfl (Nat.le_refl _) cut).newLine level
  | (key, value) :: fields, readable, cut => by
    simp only [readableFields, Bool.and_eq_true] at readable
    have others := cut_spreadFields level readable.2 cut
    have first := cut_spread (level + 1) readable.1 (ends_spreadFields level fields _) others
    have colon := Cut.token (c := ':') rfl rfl (Nat.le_refl _) (first.gap (c := ' ') rfl)
    rw [toList_spreadFields_cons, fieldTokens]
    simpa using Cut.token rfl rfl (Nat.le_refl _) ((colon.text key).newLine (level + 1))

end

/-! ## Reading -/

theorem tokens_cons (j : Json) : ∃ t ts, j.tokens = t :: ts ∧ t ≠ .closeList ∧ t ≠ .closeObject := by
  cases j with
  | list items => cases items <;> simp [tokens]
  | object fields => cases fields <;> simp [tokens]
  | _ => simp [tokens]

theorem itemTokens_length (items : List Json) : 1 ≤ (itemTokens items).length := by
  cases items <;> simp [itemTokens]

theorem fieldTokens_length (fields : List (String × Json)) : 1 ≤ (fieldTokens fields).length := by
  rcases fields with _ | ⟨⟨key, value⟩, rest⟩ <;> simp [fieldTokens]

theorem readValue?_openList {t : Token} (item : t ≠ .closeList) (fuel : Nat) (ts : List Token) :
    readValue? (fuel + 1) (.openList :: t :: ts) = readItems? fuel [] (t :: ts) := by
  rw [readValue?]
  rintro rest same
  exact item (List.cons.inj same).1

mutual

/-- The tokens of a value are read as the value. -/
theorem readValue?_tokens : ∀ (j : Json) {fuel : Nat} {ts : List Token}, j.tokens.length ≤ fuel →
    readValue? fuel (j.tokens ++ ts) = some (j, ts)
  | .list [], fuel + 1, _, _ => by
    simp [tokens, readValue?]
  | .object [], fuel + 1, _, _ => by
    simp [tokens, readValue?]
  | .list (item :: items), fuel + 1, ts, enough => by
    obtain ⟨t, others, cons, open_, -⟩ := item.tokens_cons
    have longer := itemTokens_length items
    simp only [tokens, List.length_cons, List.length_append] at enough
    obtain ⟨fuel, rfl⟩ : ∃ n, fuel = n + 1 := ⟨fuel - 1, by omega⟩
    have first : readValue? fuel (item.tokens ++ (itemTokens items ++ ts)) = some (item, itemTokens items ++ ts) :=
      readValue?_tokens item (by omega)
    have read := readItems?_tokens items [] first (by omega)
    rw [tokens, List.cons_append, List.append_assoc]
    rw [cons] at read ⊢
    exact (readValue?_openList open_ _ _).trans read
  | .object ((key, value) :: fields), fuel + 1, ts, enough => by
    have longer := fieldTokens_length fields
    simp only [tokens, List.length_cons, List.length_append] at enough
    obtain ⟨fuel, rfl⟩ : ∃ n, fuel = n + 1 := ⟨fuel - 1, by omega⟩
    have first : readValue? fuel (value.tokens ++ (fieldTokens fields ++ ts)) = some (value, fieldTokens fields ++ ts) :=
      readValue?_tokens value (by omega)
    have read := readFields?_tokens fields key [] first (by omega)
    simpa [tokens, readValue?] using read
  | .null, fuel + 1, _, _ | .bool _, fuel + 1, _, _ | .number _, fuel + 1, _, _ | .text _, fuel + 1, _, _
  | .broken, fuel + 1, _, _ => by
    simp [tokens, readValue?]
  | j, 0, _, enough => by
    obtain ⟨t, ts, cons, -⟩ := j.tokens_cons
    rw [cons] at enough
    cases enough

/-- After an item the tokens of the others are read as these. -/
theorem readItems?_tokens : ∀ (items : List Json) (found : List Json) {fuel : Nat} {item : Json} {ts before : List Token},
    readValue? fuel before = some (item, itemTokens items ++ ts) → (itemTokens items).length ≤ fuel + 1 →
      readItems? (fuel + 1) found before = some (.list (found.reverse ++ item :: items), ts)
  | [], found, fuel, item, ts, before, read, _ => by
    rw [readItems?, read]
    simp [itemTokens]
  | next :: items, found, fuel, item, ts, before, read, enough => by
    have longer := itemTokens_length items
    simp only [itemTokens, List.length_cons, List.length_append] at enough
    obtain ⟨fuel, rfl⟩ : ∃ n, fuel = n + 1 := ⟨fuel - 1, by omega⟩
    have second : readValue? fuel (next.tokens ++ (itemTokens items ++ ts)) = some (next, itemTokens items ++ ts) :=
      readValue?_tokens next (by omega)
    have others := readItems?_tokens items (item :: found) second (by omega)
    rw [readItems?, read]
    simpa [itemTokens] using others

/-- After a field the tokens of the others are read as these. -/
theorem readFields?_tokens : ∀ (fields : List (String × Json)) (key : String) (found : List (String × Json)) {fuel : Nat}
    {value : Json} {ts before : List Token},
    readValue? fuel before = some (value, fieldTokens fields ++ ts) → (fieldTokens fields).length ≤ fuel + 1 →
      readFields? (fuel + 1) found false (.atom (.text key) :: .colon :: before) =
        some (.object (found.reverse ++ (key, value) :: fields), ts)
  | [], key, found, fuel, value, ts, before, read, _ => by
    rw [readFields?, read]
    simp [fieldTokens]
  | (key', next) :: fields, key, found, fuel, value, ts, before, read, enough => by
    have longer := fieldTokens_length fields
    simp only [fieldTokens, List.length_cons, List.length_append] at enough
    obtain ⟨fuel, rfl⟩ : ∃ n, fuel = n + 1 := ⟨fuel - 1, by omega⟩
    have second : readValue? fuel (next.tokens ++ (fieldTokens fields ++ ts)) = some (next, fieldTokens fields ++ ts) :=
      readValue?_tokens next (by omega)
    have others := readFields?_tokens fields key' ((key, value) :: found) second (by omega)
    rw [readFields?, read]
    simpa [fieldTokens] using others

end

/-- What is written spread out is read back, if it can be read in full. -/
theorem parse?_pretty {j : Json} {depth : Nat} (readable : j.readable depth = true) : parse? j.pretty = some j := by
  have cut : Cut j.pretty.toList j.tokens := by
    have ends : Ends [] := by rintro c ⟨⟩
    have spread := cut_spread 0 readable ends .nil
    rwa [List.append_nil, List.append_nil] at spread
  have read : readValue? (2 * j.tokens.length) (j.tokens ++ []) = some (j, []) := readValue?_tokens j (by omega)
  rw [List.append_nil] at read
  unfold parse?
  simp only [tokens?_of_cut cut [] (Nat.le_refl _), List.reverse_nil, List.nil_append, read]

instance : LawfulCodec where
  maxNesting_eq := rfl
  parse?_pretty := parse?_pretty
  isFinite_of_number? := Numeral.isFinite_of_ofLexeme?
  nat?_count n := Numeral.nat?_toString (Nat.le_trans (Nat.le_of_lt n.toNat_lt) (by decide))
  isSome_number?_count n := Numeral.isSome_number?_toString (Nat.le_trans (Nat.le_of_lt n.toNat_lt) (by decide))

end MiniC.Json
