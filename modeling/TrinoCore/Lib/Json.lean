import Mathlib.Data.String.Basic
import Mathlib.Tactic.IntervalCases

/-!
Compact JSON text of values made of null, natural numbers, strings and arrays.

The text is uniquely readable: a value can be recovered from any text that starts with it, as long as
what follows is not another digit.
-/

inductive Json where
  | null
  | num (n : Nat)
  | str (text : String)
  | arr (items : List Json)

namespace Json

/-- The short escapes, then `\u00xx` for the other control characters; everything else as it is. -/
def escape (c : Char) : List Char :=
  if c = '"' then ['\\', '"']
  else if c = '\\' then ['\\', '\\']
  else if c = '\x08' then ['\\', 'b']
  else if c = '\t' then ['\\', 't']
  else if c = '\n' then ['\\', 'n']
  else if c = '\x0c' then ['\\', 'f']
  else if c = '\r' then ['\\', 'r']
  else if c.toNat < 32 then ['\\', 'u', '0', '0', Nat.digitChar (c.toNat / 16), Nat.digitChar (c.toNat % 16)]
  else [c]

def quote (text : String) : List Char := '"' :: (text.toList.flatMap escape ++ ['"'])

def hexValue (c : Char) : Nat := if c.isDigit then c.toNat - 48 else c.toNat - 87

def unescape : List Char → Option (Char × List Char)
  | '\\' :: 'u' :: '0' :: '0' :: high :: low :: rest =>
    some (Char.ofNat (16 * hexValue high + hexValue low), rest)
  | '\\' :: 'b' :: rest => some ('\x08', rest)
  | '\\' :: 't' :: rest => some ('\t', rest)
  | '\\' :: 'n' :: rest => some ('\n', rest)
  | '\\' :: 'f' :: rest => some ('\x0c', rest)
  | '\\' :: 'r' :: rest => some ('\r', rest)
  | '\\' :: c :: rest => some (c, rest)
  | c :: rest => some (c, rest)
  | [] => none

theorem unescape_plain {c : Char} (plain : c ≠ '\\') (rest : List Char) : unescape (c :: rest) = some (c, rest) := by
  unfold unescape
  split
  all_goals simp_all

theorem unescape_control {n : Nat} (control : n < 32) (rest : List Char) :
    unescape (escape (Char.ofNat n) ++ rest) = some (Char.ofNat n, rest) := by
  interval_cases n <;> rfl

theorem escape_plain {c : Char} (quote : c ≠ '"') (backslash : c ≠ '\\') (printable : 32 ≤ c.toNat) :
    escape c = [c] := by
  have not_control : ∀ d : Char, d.toNat < 32 → c ≠ d := by
    rintro d small rfl
    omega
  simp only [escape, quote, backslash, not_control '\x08' (by decide), not_control '\t' (by decide),
    not_control '\n' (by decide), not_control '\x0c' (by decide), not_control '\r' (by decide), ↓reduceIte]
  rw [if_neg (by omega)]

theorem unescape_escape (c : Char) (rest : List Char) : unescape (escape c ++ rest) = some (c, rest) := by
  by_cases quote : c = '"'
  · subst c
    rfl
  by_cases backslash : c = '\\'
  · subst c
    rfl
  by_cases control : c.toNat < 32
  · have same : Char.ofNat c.toNat = c := Char.ofNat_toNat c
    rw [← same]
    exact unescape_control control rest
  · rw [escape_plain quote backslash (by omega), List.singleton_append, unescape_plain backslash]

theorem escape_append_inj {c d : Char} {s t : List Char} (h : escape c ++ s = escape d ++ t) : c = d ∧ s = t := by
  have read := congrArg unescape h
  rw [unescape_escape, unescape_escape] at read
  exact Prod.mk.inj (Option.some.inj read)

theorem escape_ne_quote (c : Char) (s t : List Char) : escape c ++ s ≠ '"' :: t := by
  intro h
  by_cases quote : c = '"'
  · subst c
    cases h
  · have read := congrArg unescape h
    rw [unescape_escape] at read
    rw [unescape_plain (by decide)] at read
    exact quote (Prod.mk.inj (Option.some.inj read)).1

theorem escapes_append_inj {cs ds s t : List Char} (h : cs.flatMap escape ++ '"' :: s = ds.flatMap escape ++ '"' :: t) :
    cs = ds ∧ s = t := by
  induction cs generalizing ds with
  | nil =>
    cases ds with
    | nil => exact ⟨rfl, (List.cons.inj h).2⟩
    | cons d ds =>
      rw [List.flatMap_cons, List.append_assoc] at h
      exact absurd h.symm (escape_ne_quote d _ s)
  | cons c cs ih =>
    rw [List.flatMap_cons, List.append_assoc] at h
    cases ds with
    | nil => exact absurd h (escape_ne_quote c _ t)
    | cons d ds =>
      rw [List.flatMap_cons, List.append_assoc] at h
      obtain ⟨rfl, rest⟩ := escape_append_inj h
      obtain ⟨rfl, rfl⟩ := ih rest
      exact ⟨rfl, rfl⟩

theorem quote_append_inj {a b : String} {s t : List Char} (h : quote a ++ s = quote b ++ t) : a = b ∧ s = t := by
  simp only [quote, List.cons_append, List.append_assoc, List.nil_append, List.cons.injEq, true_and] at h
  obtain ⟨chars, rest⟩ := escapes_append_inj h
  exact ⟨String.toList_inj.mp chars, rest⟩

/-- What follows does not continue a number. -/
def Stops (s : List Char) : Prop := ∀ c ∈ s.head?, c.isDigit = false

theorem takeWhile_digits {n : Nat} {s : List Char} (stops : Stops s) :
    (Nat.toDigits 10 n ++ s).takeWhile Char.isDigit = Nat.toDigits 10 n := by
  have digits : ∀ c ∈ Nat.toDigits 10 n, c.isDigit = true := fun c present =>
    Nat.isDigit_of_mem_toDigits (by decide) (by decide) present
  rw [List.takeWhile_append_of_pos digits]
  cases s with
  | nil => simp
  | cons c rest =>
    rw [List.takeWhile_cons, stops c rfl]
    simp

theorem num_append_inj {m n : Nat} {s t : List Char} (stops : Stops s) (stops' : Stops t)
    (h : Nat.toDigits 10 m ++ s = Nat.toDigits 10 n ++ t) : m = n ∧ s = t := by
  have digits := congrArg (List.takeWhile Char.isDigit) h
  rw [takeWhile_digits stops, takeWhile_digits stops'] at digits
  have values := congrArg (Nat.ofDigitChars 10 · 0) digits
  simp only [Nat.ofDigitChars_ten_toDigits] at values
  subst n
  exact ⟨rfl, List.append_cancel_left h⟩

/-! ### Values -/

mutual
def chars : Json → List Char
  | .null => ['n', 'u', 'l', 'l']
  | .num n => Nat.toDigits 10 n
  | .str text => quote text
  | .arr [] => ['[', ']']
  | .arr (v :: rest) => '[' :: (v.chars ++ charsTail rest)

def charsTail : List Json → List Char
  | [] => [']']
  | v :: rest => ',' :: (v.chars ++ charsTail rest)
end

def render (v : Json) : String := String.ofList v.chars

/-- The first character of a text tells the kind of its value. -/
def kindOf (c : Char) : Nat := if c.isDigit then 0 else c.toNat

def kind : Json → Nat
  | .null => 'n'.toNat
  | .num _ => 0
  | .str _ => '"'.toNat
  | .arr _ => '['.toNat

theorem chars_kind (v : Json) : ∃ c rest, v.chars = c :: rest ∧ kindOf c = v.kind := by
  cases v with
  | null => exact ⟨'n', ['u', 'l', 'l'], by rw [chars], rfl⟩
  | num n =>
    cases digits : Nat.toDigits 10 n with
    | nil => exact absurd digits Nat.toDigits_ne_nil
    | cons c rest =>
      have digit : c.isDigit = true :=
        Nat.isDigit_of_mem_toDigits (by decide) (by decide) (digits ▸ List.mem_cons_self)
      exact ⟨c, rest, by rw [chars, digits], by rw [kindOf, if_pos digit, kind]⟩
  | str text => exact ⟨'"', text.toList.flatMap escape ++ ['"'], by rw [chars, quote], rfl⟩
  | arr items =>
    cases items with
    | nil => exact ⟨'[', [']'], by rw [chars], rfl⟩
    | cons v rest => exact ⟨'[', v.chars ++ charsTail rest, by rw [chars], rfl⟩

theorem kind_eq_of_append {v w : Json} {s t : List Char} (h : v.chars ++ s = w.chars ++ t) : v.kind = w.kind := by
  obtain ⟨c, rest, vChars, vKind⟩ := chars_kind v
  obtain ⟨d, rest', wChars, wKind⟩ := chars_kind w
  rw [vChars, wChars, List.cons_append, List.cons_append] at h
  rw [← vKind, ← wKind, (List.cons.inj h).1]

theorem stops_charsTail (items : List Json) (s : List Char) : Stops (charsTail items ++ s) := by
  intro c first
  cases items with
  | nil =>
    rw [charsTail] at first
    obtain rfl := Option.some.inj first
    rfl
  | cons v rest =>
    rw [charsTail] at first
    obtain rfl := Option.some.inj first
    rfl

theorem first_ne_bracket (v : Json) (s t : List Char) : v.chars ++ s ≠ ']' :: t := by
  intro h
  obtain ⟨c, rest, vChars, vKind⟩ := chars_kind v
  rw [vChars, List.cons_append] at h
  rw [(List.cons.inj h).1] at vKind
  cases v <;> exact absurd vKind (by simp only [kind]; decide)

mutual
/-- Two values whose texts start the same text are equal, and leave the same rest. -/
theorem chars_append_inj : ∀ (v w : Json) {s t : List Char}, Stops s → Stops t →
    v.chars ++ s = w.chars ++ t → v = w ∧ s = t
  | .null, w, s, t, _, _, h => by
    have kinds := kind_eq_of_append h
    cases w with
    | null => exact ⟨rfl, List.append_cancel_left h⟩
    | _ => exact absurd kinds (by simp [kind])
  | .num n, w, s, t, stops, stops', h => by
    have kinds := kind_eq_of_append h
    cases w with
    | num m =>
      rw [chars, chars] at h
      obtain ⟨rfl, rfl⟩ := num_append_inj stops stops' h
      exact ⟨rfl, rfl⟩
    | _ => exact absurd kinds (by simp [kind])
  | .str text, w, s, t, _, _, h => by
    have kinds := kind_eq_of_append h
    cases w with
    | str other =>
      rw [chars, chars] at h
      obtain ⟨rfl, rfl⟩ := quote_append_inj h
      exact ⟨rfl, rfl⟩
    | _ => exact absurd kinds (by simp [kind])
  | .arr [], w, s, t, _, _, h => by
    have kinds := kind_eq_of_append h
    cases w with
    | arr items =>
      cases items with
      | nil => exact ⟨rfl, List.append_cancel_left h⟩
      | cons w ws =>
        simp only [chars, List.cons_append, List.nil_append, List.append_assoc, List.cons.injEq, true_and] at h
        exact absurd h.symm (first_ne_bracket w _ s)
    | _ => exact absurd kinds (by simp [kind])
  | .arr (v :: vs), w, s, t, _, _, h => by
    have kinds := kind_eq_of_append h
    cases w with
    | arr items =>
      cases items with
      | nil =>
        simp only [chars, List.cons_append, List.nil_append, List.append_assoc, List.cons.injEq, true_and] at h
        exact absurd h (first_ne_bracket v _ t)
      | cons w ws =>
        rw [chars, chars, List.cons_append, List.cons_append, List.append_assoc, List.append_assoc,
          List.cons.injEq] at h
        obtain ⟨rfl, rest⟩ := chars_append_inj v w (stops_charsTail vs s) (stops_charsTail ws t) h.2
        obtain ⟨rfl, rfl⟩ := charsTail_append_inj vs ws rest
        exact ⟨rfl, rfl⟩
    | _ => exact absurd kinds (by simp [kind])

theorem charsTail_append_inj : ∀ (vs ws : List Json) {s t : List Char},
    charsTail vs ++ s = charsTail ws ++ t → vs = ws ∧ s = t
  | [], [], _, _, h => ⟨rfl, List.append_cancel_left h⟩
  | [], w :: ws, _, _, h => by
    rw [charsTail, charsTail, List.cons_append, List.cons_append] at h
    exact absurd (List.cons.inj h).1 (by decide)
  | v :: vs, [], _, _, h => by
    rw [charsTail, charsTail, List.cons_append, List.cons_append] at h
    exact absurd (List.cons.inj h).1 (by decide)
  | v :: vs, w :: ws, s, t, h => by
    rw [charsTail, charsTail, List.cons_append, List.cons_append, List.append_assoc, List.append_assoc,
      List.cons.injEq] at h
    obtain ⟨rfl, rest⟩ := chars_append_inj v w (stops_charsTail vs s) (stops_charsTail ws t) h.2
    obtain ⟨rfl, rfl⟩ := charsTail_append_inj vs ws rest
    exact ⟨rfl, rfl⟩
end

theorem render_inj {v w : Json} (h : v.render = w.render) : v = w := by
  have texts : v.chars ++ [] = w.chars ++ [] := by
    simpa only [render, String.ofList_inj, List.append_nil] using h
  have stops : Stops [] := by
    intro c first
    cases first
  exact (chars_append_inj v w stops stops texts).1

def byteLength (cs : List Char) : Nat := (cs.flatMap String.utf8EncodeChar).length

theorem byteLength_append (cs ds : List Char) : byteLength (cs ++ ds) = byteLength cs + byteLength ds := by
  simp [byteLength]

theorem byteLength_cons (c : Char) (cs : List Char) : byteLength (c :: cs) = c.utf8Size + byteLength cs := by
  simp [byteLength]

theorem byteLength_escape (c : Char) : c.utf8Size ≤ byteLength (escape c) := by
  by_cases quote : c = '"'
  · subst c
    decide
  by_cases backslash : c = '\\'
  · subst c
    decide
  by_cases control : c.toNat < 32
  · have ascii : c.utf8Size = 1 := by
      rw [Char.utf8Size_eq_one_iff, UInt32.le_iff_toNat_le]
      change c.toNat ≤ 127
      omega
    cases escaped : escape c with
    | nil =>
      have read := unescape_escape c []
      rw [escaped] at read
      cases read
    | cons d rest =>
      have positive := d.utf8Size_pos
      rw [byteLength_cons, ascii]
      omega
  · rw [escape_plain quote backslash (by omega), byteLength_cons]
    omega

theorem byteLength_escapes (cs : List Char) : byteLength cs ≤ byteLength (cs.flatMap escape) := by
  induction cs with
  | nil => exact Nat.le_refl _
  | cons c cs ih =>
    have first := byteLength_escape c
    rw [List.flatMap_cons, byteLength_cons, byteLength_append]
    omega

theorem byteLength_str (text : String) : byteLength text.toList ≤ byteLength (str text).chars := by
  have inner := byteLength_escapes text.toList
  unfold chars
  rw [quote, byteLength_cons, byteLength_append]
  omega

theorem byteLength_charsTail {v : Json} {items : List Json} (present : v ∈ items) :
    byteLength v.chars ≤ byteLength (charsTail items) := by
  induction items with
  | nil => cases present
  | cons w rest ih =>
    unfold charsTail
    rw [byteLength_cons, byteLength_append]
    rcases List.mem_cons.mp present with rfl | later
    · omega
    · have tail := ih later
      omega

theorem byteLength_arr {v : Json} {items : List Json} (present : v ∈ items) :
    byteLength v.chars ≤ byteLength (arr items).chars := by
  cases items with
  | nil => cases present
  | cons w rest =>
    rw [chars, byteLength_cons, byteLength_append]
    rcases List.mem_cons.mp present with rfl | later
    · omega
    · have tail := byteLength_charsTail later
      omega

end Json
