import TrinoCore.Lib.Json

/-!
JSON values as a generic reader sees them.

An object is looked at by key only, so two values are the same when their objects have the same value
under every key, in whatever order the keys stand.
-/

/-- A number that fits no unsigned 64-bit integer is kept by its text. -/
inductive JsonValue where
  | null
  | bool (b : Bool)
  | num (n : UInt64)
  | otherNum (text : String)
  | str (text : String)
  | arr (items : List JsonValue)
  | obj (entries : List (String × JsonValue))

namespace JsonValue

/-- The same value, up to the order of keys. -/
inductive Same : JsonValue → JsonValue → Prop
  | refl (v : JsonValue) : Same v v
  | arr {xs ys : List JsonValue} : List.Forall₂ Same xs ys → Same (.arr xs) (.arr ys)
  | obj {xs ys : List (String × JsonValue)} :
      (∀ key, Option.Rel Same (xs.lookup key) (ys.lookup key)) → Same (.obj xs) (.obj ys)

/-- Values that every reader of JSON takes back: whole numbers, no key twice, at most `depth` levels. -/
inductive Plain : Nat → JsonValue → Prop
  | null {depth : Nat} : Plain depth .null
  | bool {depth : Nat} (b : Bool) : Plain depth (.bool b)
  | num {depth : Nat} (n : UInt64) : Plain depth (.num n)
  | str {depth : Nat} (text : String) : Plain depth (.str text)
  | arr {depth : Nat} {items : List JsonValue} : (∀ v ∈ items, Plain depth v) → Plain (depth + 1) (.arr items)
  | obj {depth : Nat} {entries : List (String × JsonValue)} : (entries.map Prod.fst).Nodup →
      (∀ entry ∈ entries, Plain depth entry.2) → Plain (depth + 1) (.obj entries)

mutual
def chars : JsonValue → List Char
  | .null => ['n', 'u', 'l', 'l']
  | .bool true => ['t', 'r', 'u', 'e']
  | .bool false => ['f', 'a', 'l', 's', 'e']
  | .num n => Nat.toDigits 10 n.toNat
  | .otherNum text => text.toList
  | .str text => Json.quote text
  | .arr [] => ['[', ']']
  | .arr (v :: rest) => '[' :: (v.chars ++ charsItems rest)
  | .obj [] => ['\x7b', '\x7d']
  | .obj ((key, v) :: rest) => '\x7b' :: (Json.quote key ++ ':' :: (v.chars ++ charsEntries rest))

def charsItems : List JsonValue → List Char
  | [] => [']']
  | v :: rest => ',' :: (v.chars ++ charsItems rest)

def charsEntries : List (String × JsonValue) → List Char
  | [] => ['\x7d']
  | (key, v) :: rest => ',' :: (Json.quote key ++ ':' :: (v.chars ++ charsEntries rest))
end

def render (v : JsonValue) : String := String.ofList v.chars

def parseText : Nat → List Char → Option (List Char × List Char)
  | 0, _ => none
  | _ + 1, '"' :: rest => some ([], rest)
  | fuel + 1, text => do
    let (c, rest) ← Json.unescape text
    let (cs, rest) ← parseText fuel rest
    return (c :: cs, rest)

def parseNumber (text : List Char) : Option (JsonValue × List Char) :=
  let digits := text.takeWhile Char.isDigit
  let n := Nat.ofDigitChars 10 digits 0
  if digits = [] ∨ 2 ^ 64 ≤ n then none else some (.num (UInt64.ofNat n), text.drop digits.length)

mutual
/-- Reads compact text without fractions or signs; each call takes at least one character. -/
def parseValue : Nat → List Char → Option (JsonValue × List Char)
  | 0, _ => none
  | fuel + 1, text =>
    match text with
    | 'n' :: 'u' :: 'l' :: 'l' :: rest => some (.null, rest)
    | 't' :: 'r' :: 'u' :: 'e' :: rest => some (.bool true, rest)
    | 'f' :: 'a' :: 'l' :: 's' :: 'e' :: rest => some (.bool false, rest)
    | '"' :: rest => do
      let (cs, rest) ← parseText fuel rest
      return (.str (String.ofList cs), rest)
    | '[' :: ']' :: rest => some (.arr [], rest)
    | '[' :: rest => do
      let (v, rest) ← parseValue fuel rest
      let (items, rest) ← parseItems fuel rest
      return (.arr (v :: items), rest)
    | '\x7b' :: '\x7d' :: rest => some (.obj [], rest)
    | '\x7b' :: rest => do
      let (entry, rest) ← parseEntry fuel rest
      let (entries, rest) ← parseEntries fuel rest
      return (.obj (entry :: entries), rest)
    | text => parseNumber text

def parseItems : Nat → List Char → Option (List JsonValue × List Char)
  | 0, _ => none
  | fuel + 1, text =>
    match text with
    | ']' :: rest => some ([], rest)
    | ',' :: rest => do
      let (v, rest) ← parseValue fuel rest
      let (items, rest) ← parseItems fuel rest
      return (v :: items, rest)
    | _ => none

def parseEntry : Nat → List Char → Option ((String × JsonValue) × List Char)
  | 0, _ => none
  | fuel + 1, text =>
    match text with
    | '"' :: rest => do
      let (cs, rest) ← parseText fuel rest
      match rest with
      | ':' :: rest => do
        let (v, rest) ← parseValue fuel rest
        return ((String.ofList cs, v), rest)
      | _ => none
    | _ => none

def parseEntries : Nat → List Char → Option (List (String × JsonValue) × List Char)
  | 0, _ => none
  | fuel + 1, text =>
    match text with
    | '\x7d' :: rest => some ([], rest)
    | ',' :: rest => do
      let (entry, rest) ← parseEntry fuel rest
      let (entries, rest) ← parseEntries fuel rest
      return (entry :: entries, rest)
    | _ => none
end

def parse (text : String) : Option JsonValue :=
  match parseValue (text.toList.length + 1) text.toList with
  | some (v, []) => some v
  | _ => none

/-! ### Reading back -/

theorem parseText_escapes {fuel : Nat} {cs : List Char} (rest : List Char) (enough : cs.length < fuel) :
    parseText fuel (cs.flatMap Json.escape ++ '"' :: rest) = some (cs, rest) := by
  induction cs generalizing fuel with
  | nil =>
    obtain ⟨fuel, rfl⟩ := Nat.exists_eq_add_of_lt enough
    simp [parseText]
  | cons c cs ih =>
    cases fuel with
    | zero => cases enough
    | succ fuel =>
      have tail := ih (Nat.lt_of_succ_lt_succ enough)
      have read := Json.unescape_escape c (cs.flatMap Json.escape ++ '"' :: rest)
      rw [List.flatMap_cons, List.append_assoc]
      unfold parseText
      split
      · contradiction
      · rename_i start
        exact absurd start (Json.escape_ne_quote c _ _)
      · rename_i same _
        obtain rfl := Nat.succ.inj same
        simp [read, tail]

theorem parseNumber_toDigits (n : UInt64) {rest : List Char} (stops : Json.Stops rest) :
    parseNumber (Nat.toDigits 10 n.toNat ++ rest) = some (.num n, rest) := by
  have limit : ¬2 ^ 64 ≤ n.toNat := Nat.not_le.mpr n.toNat_lt
  unfold parseNumber
  simp only [Json.takeWhile_digits stops, Nat.ofDigitChars_ten_toDigits, Nat.toDigits_ne_nil, limit, or_self,
    ↓reduceIte, UInt64.ofNat_toNat, List.drop_left]

theorem toDigits_head (n : Nat) : ∃ c rest, Nat.toDigits 10 n = c :: rest ∧ c.isDigit = true := by
  cases digits : Nat.toDigits 10 n with
  | nil => exact absurd digits Nat.toDigits_ne_nil
  | cons c rest =>
    exact ⟨c, rest, rfl, Nat.isDigit_of_mem_toDigits (by decide) (by decide) (digits ▸ List.mem_cons_self)⟩

theorem chars_ne_bracket {depth : Nat} {v : JsonValue} (plain : Plain depth v) (s rest : List Char) :
    v.chars ++ s ≠ ']' :: rest := by
  intro same
  cases plain with
  | null => simp [chars] at same
  | bool b => cases b <;> simp [chars] at same
  | num n =>
    obtain ⟨c, digits, start, digit⟩ := toDigits_head n.toNat
    rw [chars, start] at same
    obtain rfl := (List.cons.inj same).1
    cases digit
  | str text => simp [chars, Json.quote] at same
  | @arr _ items _ => cases items <;> simp [chars] at same
  | @obj _ entries _ _ => cases entries <;> simp [chars] at same

theorem parseValue_digit {fuel : Nat} {c : Char} {rest : List Char} (digit : c.isDigit = true) :
    parseValue (fuel + 1) (c :: rest) = parseNumber (c :: rest) := by
  unfold parseValue
  split
  all_goals first | rfl | (rename_i start; obtain rfl := (List.cons.inj start).1; cases digit)

theorem length_escapes (cs : List Char) : cs.length ≤ (cs.flatMap Json.escape).length := by
  induction cs with
  | nil => simp
  | cons c cs ih =>
    have positive : 0 < (Json.escape c).length := by
      apply List.length_pos_iff.mpr
      intro empty
      have read := Json.unescape_escape c []
      rw [empty] at read
      cases read
    simp only [List.flatMap_cons, List.length_append, List.length_cons]
    omega

theorem length_quote (text : String) : text.toList.length + 2 ≤ (Json.quote text).length := by
  have inner := length_escapes text.toList
  simp only [Json.quote, List.length_cons, List.length_append, List.length_nil]
  omega

theorem parseEntry_quote {fuel : Nat} (key : String) {v : JsonValue} {text s : List Char}
    (enough : key.toList.length < fuel) (value : parseValue fuel text = some (v, s)) :
    parseEntry (fuel + 1) (Json.quote key ++ ':' :: text) = some ((key, v), s) := by
  have inner := parseText_escapes (':' :: text) enough
  simp [Json.quote, parseEntry, inner, value]

theorem stops_charsItems (items : List JsonValue) (s : List Char) : Json.Stops (charsItems items ++ s) := by
  cases items <;> · intro c first
                    simp [charsItems] at first
                    subst first
                    rfl

theorem stops_charsEntries (entries : List (String × JsonValue)) (s : List Char) :
    Json.Stops (charsEntries entries ++ s) := by
  cases entries <;> · intro c first
                      simp [charsEntries] at first
                      subst first
                      rfl

mutual
/-- Whatever follows a value, the value is read back and what follows is left. -/
theorem parseValue_chars : ∀ {depth : Nat} (v : JsonValue), Plain depth v → ∀ (fuel : Nat) (s : List Char),
    Json.Stops s → v.chars.length < fuel → parseValue fuel (v.chars ++ s) = some (v, s)
  | _, .null, _, fuel + 1, s, _, _ => by simp [chars, parseValue]
  | _, .bool true, _, fuel + 1, s, _, _ => by simp [chars, parseValue]
  | _, .bool false, _, fuel + 1, s, _, _ => by simp [chars, parseValue]
  | _, .num n, _, fuel + 1, s, stops, _ => by
    obtain ⟨c, digits, start, digit⟩ := toDigits_head n.toNat
    have number := parseNumber_toDigits n stops
    rw [start] at number
    rw [chars, start, List.cons_append, parseValue_digit digit]
    exact number
  | _, .str text, _, fuel + 1, s, _, enough => by
    have size := length_quote text
    rw [chars] at enough
    have inner := parseText_escapes s (show text.toList.length < fuel by omega)
    simp [chars, Json.quote, parseValue, inner]
  | _, .arr [], _, fuel + 1, s, _, _ => by simp [chars, parseValue]
  | _, .arr (v :: rest), .arr plain, fuel + 1, s, _, enough => by
    simp only [chars, List.length_cons, List.length_append] at enough
    have first := parseValue_chars v (plain v List.mem_cons_self) fuel _ (stops_charsItems rest s) (by omega)
    have later := parseItems_chars rest (fun w present => plain w (List.mem_cons_of_mem _ present)) fuel s (by omega)
    rw [chars, List.cons_append, List.append_assoc, parseValue]
    · simp [first, later]
    · exact chars_ne_bracket (plain v List.mem_cons_self) _
  | _, .obj [], _, fuel + 1, s, _, _ => by simp [chars, parseValue]
  | _, .obj ((key, v) :: rest), .obj _ plain, fuel + 2, s, _, enough => by
    simp only [chars, List.length_cons, List.length_append] at enough
    have size := length_quote key
    have value := parseValue_chars v (plain _ List.mem_cons_self) fuel _ (stops_charsEntries rest s) (by omega)
    have entry := parseEntry_quote key (by omega) value
    have later := parseEntries_chars rest (fun e present => plain e (List.mem_cons_of_mem _ present)) (fuel + 1) s
      (by omega)
    simp only [Json.quote, List.cons_append, List.append_assoc, List.nil_append] at entry
    simp [chars, Json.quote, parseValue, entry, later]
  | _, .obj ((key, v) :: rest), _, 1, s, _, enough => by
    simp [chars] at enough

theorem parseItems_chars : ∀ {depth : Nat} (items : List JsonValue), (∀ v ∈ items, Plain depth v) →
    ∀ (fuel : Nat) (s : List Char), (charsItems items).length < fuel →
      parseItems fuel (charsItems items ++ s) = some (items, s)
  | _, [], _, fuel + 1, s, _ => by simp [charsItems, parseItems]
  | _, v :: rest, plain, fuel + 1, s, enough => by
    simp only [charsItems, List.length_cons, List.length_append] at enough
    have first := parseValue_chars v (plain v List.mem_cons_self) fuel _ (stops_charsItems rest s) (by omega)
    have later := parseItems_chars rest (fun w present => plain w (List.mem_cons_of_mem _ present)) fuel s (by omega)
    simp [charsItems, parseItems, first, later]

theorem parseEntries_chars : ∀ {depth : Nat} (entries : List (String × JsonValue)), (∀ e ∈ entries, Plain depth e.2) →
    ∀ (fuel : Nat) (s : List Char), (charsEntries entries).length < fuel →
      parseEntries fuel (charsEntries entries ++ s) = some (entries, s)
  | _, [], _, fuel + 1, s, _ => by simp [charsEntries, parseEntries]
  | _, (key, v) :: rest, plain, fuel + 2, s, enough => by
    simp only [charsEntries, List.length_cons, List.length_append] at enough
    have size := length_quote key
    have value := parseValue_chars v (plain _ List.mem_cons_self) fuel _ (stops_charsEntries rest s) (by omega)
    have entry := parseEntry_quote key (by omega) value
    have later := parseEntries_chars rest (fun e present => plain e (List.mem_cons_of_mem _ present)) (fuel + 1) s
      (by omega)
    rw [charsEntries, List.cons_append, List.append_assoc, List.cons_append, List.append_assoc, parseEntries]
    simp [entry, later]
  | _, (key, v) :: rest, _, 1, s, enough => by
    simp [charsEntries] at enough
end

theorem parse_render {depth : Nat} {v : JsonValue} (plain : Plain depth v) : parse v.render = some v := by
  have read := parseValue_chars v plain (v.chars.length + 1) [] (by intro c first; cases first) (Nat.lt_succ_self _)
  rw [List.append_nil] at read
  simp [parse, render, read]

end JsonValue
