import TrinoCore.Lib.Percent
import TrinoCore.Totp.Encoding

namespace TrinoCore

/-- A URI split at its separators, with nothing decoded yet. -/
structure UriParts where
  issuer : String
  label : String
  parameters : List (String × String)
  deriving DecidableEq

def splitParameter (parameter : List Char) : Option (String × String) :=
  match parameter.splitOn '=' with
  | [name, value] => some (String.ofList name, String.ofList value)
  | _ => none

/-- The scheme, the first `:` after it, the `?`, every `&` and every `=`. -/
def splitUri (uri : String) : Option UriParts := do
  let rest ← "otpauth://totp/".toList.isPrefixOf? uri.toList
  match (rest.dropWhile (· ≠ ':')).splitOn '?' with
  | [':' :: label, query] =>
    let parameters ← (query.splitOn '&').mapM splitParameter
    return ⟨String.ofList (rest.takeWhile (· ≠ ':')), String.ofList label, parameters⟩
  | _ => none

def uriSeparators : List Char := [':', '?', '&', '=']

def isUnreserved (c : Char) : Bool := c.isAlphanum || c = '-' || c = '_' || c = '.' || c = '~'

theorem urlencode_eq (s : String) : urlencode s = Percent.encode isUnreserved s := rfl

theorem isUnreserved_plain : Percent.Plain isUnreserved := by
  intro c unreserved
  constructor
  · rintro rfl
    cases unreserved
  · simp only [isUnreserved, Bool.or_eq_true, decide_eq_true_eq] at unreserved
    rcases unreserved with (((alphanum | rfl) | rfl) | rfl) | rfl
    · exact toNat_lt_of_isAlphanum alphanum
    all_goals decide

theorem separator_not_alphanum {c : Char} (separator : c ∈ uriSeparators) :
    c.isAlphanum = false ∧ isUnreserved c = false ∧ c ≠ '%' := by
  simp only [uriSeparators, List.mem_cons, List.not_mem_nil, or_false] at separator
  rcases separator with rfl | rfl | rfl | rfl
  all_goals decide

theorem urlencode_separators {s : String} {c : Char} (separator : c ∈ uriSeparators) : c ∉ (urlencode s).toList := by
  obtain ⟨alphanum, unreserved, percent⟩ := separator_not_alphanum separator
  intro present
  rw [urlencode_eq] at present
  rcases Percent.mem_encode present with kept | rfl | digit
  · rw [unreserved] at kept
    cases kept
  · exact percent rfl
  · rw [alphanum] at digit
    cases digit

theorem alphabet_alphanum : ∀ group : Fin 32, (Base32.alphabet.get group).isAlphanum = true := by decide

theorem toBase32_separators {secret : Bytes} {c : Char} (separator : c ∈ uriSeparators) : c ∉ (toBase32 secret).toList := by
  obtain ⟨alphanum, _, _⟩ := separator_not_alphanum separator
  obtain ⟨groups, text, _⟩ := toBase32_encodes secret
  intro present
  rw [text] at present
  obtain ⟨group, _, rfl⟩ := List.mem_map.mp present
  rw [alphabet_alphanum] at alphanum
  cases alphanum

def uriQuery (secret issuer : List Char) : List (List Char) :=
  ["secret".toList ++ '=' :: secret, "issuer".toList ++ '=' :: issuer, "algorithm".toList ++ '=' :: "SHA1".toList,
    "digits".toList ++ '=' :: "6".toList, "period".toList ++ '=' :: "30".toList]

theorem otpauthUri_chars (secret : Bytes) (label issuer : String) :
    (otpauthUri secret label issuer).toList = "otpauth://totp/".toList ++ ((urlencode issuer).toList ++
      ':' :: ((urlencode label).toList ++
        '?' :: ['&'].intercalate (uriQuery (toBase32 secret).toList (urlencode issuer).toList))) := by
  have first : "?secret=".toList = '?' :: ("secret".toList ++ ['=']) := by decide
  have second : "&issuer=".toList = '&' :: ("issuer".toList ++ ['=']) := by decide
  have last : "&algorithm=SHA1&digits=6&period=30".toList = '&' :: ("algorithm".toList ++ '=' :: ("SHA1".toList ++
      '&' :: ("digits".toList ++ '=' :: ("6".toList ++ '&' :: ("period".toList ++ '=' :: "30".toList))))) := by decide
  have colon : ":".toList = [':'] := by decide
  unfold otpauthUri uriQuery
  dsimp only
  rw [String.toList_append, String.toList_append, String.toList_append, String.toList_append, String.toList_append,
    String.toList_append, String.toList_append, String.toList_append, first, second, last, colon]
  simp only [List.intercalate_cons_cons, List.intercalate_singleton, List.append_assoc, List.cons_append, List.nil_append]

theorem splitParameter_pair {name value : List Char} (inName : '=' ∉ name) (inValue : '=' ∉ value) :
    splitParameter (name ++ '=' :: value) = some (String.ofList name, String.ofList value) := by
  unfold splitParameter
  rw [List.splitOn_append_cons_self_of_not_mem inName, List.splitOn_eq_singleton inValue]

theorem isPrefixOf?_append (front back : List Char) : front.isPrefixOf? (front ++ back) = some back := by
  induction front with
  | nil => rfl
  | cons c rest ih => rw [List.cons_append, List.isPrefixOf?, if_pos (beq_self_eq_true c), ih]

theorem mapM_splitParameter {secret issuer : List Char} (inSecret : '=' ∉ secret) (inIssuer : '=' ∉ issuer) :
    (uriQuery secret issuer).mapM splitParameter = some [("secret", String.ofList secret), ("issuer", String.ofList issuer),
      ("algorithm", "SHA1"), ("digits", "6"), ("period", "30")] := by
  have first := splitParameter_pair (show '=' ∉ "secret".toList by decide) inSecret
  have second := splitParameter_pair (show '=' ∉ "issuer".toList by decide) inIssuer
  have algorithm : splitParameter ("algorithm".toList ++ '=' :: "SHA1".toList) = some ("algorithm", "SHA1") := by decide
  have digits : splitParameter ("digits".toList ++ '=' :: "6".toList) = some ("digits", "6") := by decide
  have period : splitParameter ("period".toList ++ '=' :: "30".toList) = some ("period", "30") := by decide
  rw [String.ofList_toList] at first second
  simp only [uriQuery, List.mapM_cons, List.mapM_nil, first, second, algorithm, digits, period]
  rfl

theorem not_mem_intercalate {c separator : Char} {parts : List (List Char)} (other : c ≠ separator)
    (absent : ∀ part ∈ parts, c ∉ part) : c ∉ [separator].intercalate parts := by
  induction parts with
  | nil => exact List.not_mem_nil
  | cons part rest ih =>
    obtain ⟨first, later⟩ := List.forall_mem_cons.mp absent
    cases rest with
    | nil => simpa using first
    | cons next rest =>
      have tail := ih later
      simp only [List.intercalate_cons_cons, List.mem_append, List.mem_singleton]
      rintro ((present | same) | present)
      · exact first present
      · exact other same
      · exact tail present

theorem uriQuery_separators {secret issuer : List Char} {c : Char} (separator : c ∈ ['?', '&']) (inSecret : c ∉ secret)
    (inIssuer : c ∉ issuer) : ∀ parameter ∈ uriQuery secret issuer, c ∉ parameter := by
  have names : c ≠ '=' ∧ c ∉ "secret".toList ∧ c ∉ "issuer".toList ∧ c ∉ "algorithm".toList ++ '=' :: "SHA1".toList ∧
      c ∉ "digits".toList ++ '=' :: "6".toList ∧ c ∉ "period".toList ++ '=' :: "30".toList := by
    rcases List.mem_pair.mp separator with rfl | rfl
    all_goals decide
  obtain ⟨equals, first, second, algorithm, digits, period⟩ := names
  have pair {name value : List Char} (inName : c ∉ name) (inValue : c ∉ value) : c ∉ name ++ '=' :: value := by
    rw [List.mem_append, List.mem_cons]
    rintro (present | same | present)
    · exact inName present
    · exact equals same
    · exact inValue present
  intro parameter present
  simp only [uriQuery, List.mem_cons, List.not_mem_nil, or_false] at present
  rcases present with rfl | rfl | rfl | rfl | rfl
  · exact pair first inSecret
  · exact pair second inIssuer
  · exact algorithm
  · exact digits
  · exact period

theorem span_colon {front : List Char} (absent : ':' ∉ front) (back : List Char) :
    (front ++ ':' :: back).takeWhile (· ≠ ':') = front ∧ (front ++ ':' :: back).dropWhile (· ≠ ':') = ':' :: back := by
  have before : ∀ c ∈ front, decide (c ≠ ':') = true := by
    intro c present
    exact decide_eq_true fun same => absent (same ▸ present)
  rw [List.takeWhile_append_of_pos before, List.dropWhile_append_of_pos before]
  simp

theorem splitUri_otpauthUri (secret : Bytes) (label issuer : String) :
    splitUri (otpauthUri secret label issuer) = some
      { issuer := urlencode issuer, label := urlencode label
        parameters := [("secret", toBase32 secret), ("issuer", urlencode issuer), ("algorithm", "SHA1"), ("digits", "6"),
          ("period", "30")] } := by
  have mem : ∀ c ∈ uriSeparators, c ∉ (toBase32 secret).toList ∧ c ∉ (urlencode issuer).toList ∧ c ∉ (urlencode label).toList :=
    fun c separator => ⟨toBase32_separators separator, urlencode_separators separator, urlencode_separators separator⟩
  have parameters := mapM_splitParameter (mem '=' (by decide)).1 (mem '=' (by decide)).2.1
  rw [String.ofList_toList, String.ofList_toList] at parameters
  have marks := mem '?' (by decide)
  have ampersands := List.splitOn_intercalate '&'
    (uriQuery_separators (by decide) (mem '&' (by decide)).1 (mem '&' (by decide)).2.1) (List.cons_ne_nil _ _)
  have noMark := not_mem_intercalate (show '?' ≠ '&' by decide) (uriQuery_separators (by decide) marks.1 marks.2.1)
  have path : '?' ∉ ':' :: (urlencode label).toList := by
    rw [List.mem_cons]
    rintro (same | present)
    · cases same
    · exact marks.2.2 present
  obtain ⟨issuerPart, rest⟩ := span_colon (mem ':' (by decide)).2.1 ((urlencode label).toList ++
    '?' :: ['&'].intercalate (uriQuery (toBase32 secret).toList (urlencode issuer).toList))
  have halves := List.splitOn_append_cons_self_of_not_mem path
    (['&'].intercalate (uriQuery (toBase32 secret).toList (urlencode issuer).toList))
  rw [List.splitOn_eq_singleton noMark, List.cons_append] at halves
  unfold splitUri
  rw [otpauthUri_chars, isPrefixOf?_append]
  simp only [Option.bind_eq_bind, Option.bind_some, issuerPart, rest, halves, ampersands, parameters]
  rw [String.ofList_toList, String.ofList_toList]
  rfl

/-- A reader that splits the URI at its separators finds the parameters that were meant and no others,
with the issuer twice and the label as they were, and the secret; so no two URIs are the same. -/
theorem otpauthUri_read (secret : Bytes) (label issuer : String) :
    (∃ parts, splitUri (otpauthUri secret label issuer) = some parts ∧
      parts.parameters.map Prod.fst = ["secret", "issuer", "algorithm", "digits", "period"] ∧
      parts.parameters.lookup "issuer" = some parts.issuer ∧
      Percent.decode parts.issuer = some issuer ∧ Percent.decode parts.label = some label ∧
      (parts.parameters.lookup "secret").bind Base32.decode = some secret ∧
      parts.parameters.lookup "algorithm" = some "SHA1" ∧ parts.parameters.lookup "digits" = some "6" ∧
      parts.parameters.lookup "period" = some "30") ∧
    ∀ secret' label' issuer', otpauthUri secret' label' issuer' = otpauthUri secret label issuer →
      secret' = secret ∧ label' = label ∧ issuer' = issuer := by
  have text (s : String) : Percent.decode (urlencode s) = some s := Percent.decode_encode isUnreserved_plain s
  constructor
  · exact ⟨_, splitUri_otpauthUri secret label issuer, rfl, rfl, text issuer, text label, decode_toBase32 secret, rfl, rfl, rfl⟩
  · intro secret' label' issuer' same
    have parts := congrArg splitUri same
    rw [splitUri_otpauthUri, splitUri_otpauthUri, Option.some.injEq, UriParts.mk.injEq] at parts
    obtain ⟨sameIssuer, sameLabel, sameParameters⟩ := parts
    have sameSecret : toBase32 secret' = toBase32 secret := (Prod.mk.inj (List.cons.inj sameParameters).1).2
    refine ⟨?_, ?_, ?_⟩
    · exact Option.some.inj (by rw [← decode_toBase32, ← decode_toBase32, sameSecret])
    · exact Option.some.inj (by rw [← text, ← text, sameLabel])
    · exact Option.some.inj (by rw [← text, ← text, sameIssuer])

end TrinoCore
