import Brynet.Http.Url
import Mathlib.Data.FinEnum
import Mathlib.Data.List.TakeWhile

/-!
# The loop of the URL parser

What holds after any number of turns of the first loop of
`http_parser_parse_url`.  `parseUrlChar_cases` says once what a step of the
automaton can do and `next_cases` what a turn of the loop does with it; the
invariants are derived from these two.

The states from the path on form the tail of the automaton: it cannot fail there
on a character that occurs in URLs, and it never returns to the authority part
(`extends_run`).

Four invariants are carried along the loop, each with a theorem for one turn:

* `Placed`: the fields lie within what was read;
* `Phased`: the state says which of path and query are noted, and which comes next;
* `Measured`: the path is before the first separator, the query before the fragment;
* `Parted`: the host lies before the character that the path begins with.

`Scanned` puts them together (`scanned_of_run`).
-/

namespace Brynet.Http

/-! ## The automaton -/

/-- The characters that occur in a URL. -/
def isUrlByte (c : UInt8) : Bool := isUrlChar c || isOneOf ['?', '#'] c

/-- The characters before a fragment. -/
def notHash (c : UInt8) : Bool := !isOneOf ['#'] c

/-- The states before the path. -/
def UrlState.isEarly : UrlState → Bool
  | .spacesBeforeUrl | .schema | .schemaSlash | .schemaSlashSlash | .serverStart | .server
  | .serverWithAt => true
  | _ => false

/-- The states from the path on. -/
def UrlState.isTail : UrlState → Bool
  | .path | .queryStringStart | .queryString | .fragmentStart | .fragment => true
  | _ => false

def UrlState.isQuery : UrlState → Bool
  | .queryStringStart | .queryString => true
  | _ => false

def UrlState.isFragment : UrlState → Bool
  | .fragmentStart | .fragment => true
  | _ => false

theorem UrlState.isTail_of_isFragment {s : UrlState} (h : s.isFragment) : s.isTail := by
  cases s <;> first | rfl | cases h

theorem UrlState.isFragment_of_isEarly {s : UrlState} (h : s.isEarly) : s.isFragment = false := by
  cases s <;> first | rfl | cases h

theorem UrlState.isFragment_of_isQuery {s : UrlState} (h : s.isQuery) : s.isFragment = false := by
  cases s <;> first | rfl | cases h

theorem UrlState.field_of_isTail {s : UrlState} (h : s.isTail) {uf : UrlField}
    (huf : uf = .schema ∨ uf = .host ∨ uf = .port ∨ uf = .userinfo) : s.field ≠ some uf := by
  rcases huf with rfl | rfl | rfl | rfl <;> cases s <;> simp_all [UrlState.isTail, UrlState.field]

theorem UrlState.isEarly_of_not_isTail {s : UrlState} (h : ¬s.isTail) (hdead : s ≠ .dead) :
    s.isEarly := by
  cases s <;> simp_all [UrlState.isTail, UrlState.isEarly]

theorem UrlState.field_of_isFragment {s : UrlState} (h : s.isFragment) :
    s.field ≠ some .path ∧ s.field ≠ some .query := by
  cases s <;> simp_all [UrlState.isFragment, UrlState.field]

theorem UrlState.field_of_past {s : UrlState} (h : s.isQuery ∨ s.isFragment) :
    s.field ≠ some .path := by
  cases s <;> simp_all [UrlState.isQuery, UrlState.isFragment, UrlState.field]

theorem UrlState.path_or_query {s : UrlState} (h : s.isTail) (hfragment : ¬s.isFragment) :
    s = .path ∨ s.isQuery := by
  cases s <;> simp_all [UrlState.isTail, UrlState.isFragment, UrlState.isQuery]

theorem UrlState.eq_path_of_field {s : UrlState} (h : s.field = some .path) : s = .path := by
  cases s <;> first | rfl | cases h

theorem UrlState.eq_queryString_of_field {s : UrlState} (h : s.field = some .query) :
    s = .queryString := by
  cases s <;> first | rfl | cases h

theorem UrlState.field_of_isEarly {s : UrlState} (h : s.isEarly) :
    s.field ≠ some .path ∧ s.field ≠ some .query := by
  cases s <;> simp_all [UrlState.isEarly, UrlState.field]

/-- A longer list has more characters. -/
theorem isOneOf_mono {chars more : List Char} (hsub : chars ⊆ more) {c : UInt8}
    (h : isOneOf chars c) : isOneOf more c := by
  obtain ⟨x, hmem, heq⟩ := isOneOf_iff.mp h
  exact isOneOf_iff.mpr ⟨x, hsub hmem, heq⟩

theorem isUrlChar_of_isAlphanum {c : UInt8} (h : isAlphanum c) : isUrlChar c := by
  revert c
  decide +kernel

theorem isUrlChar_of_all {chars : List Char}
    (hchars : (chars.all fun x => isUrlChar x.toUInt8) = true) {c : UInt8} (h : isOneOf chars c) :
    isUrlChar c := by
  obtain ⟨x, hmem, rfl⟩ := isOneOf_iff.mp h
  exact List.all_eq_true.mp hchars x hmem

/-- The classes of the automaton within the characters of a URL. -/
theorem isUrlChar_of_class (c : UInt8)
    (h : isAlpha c ∨ isUserinfoChar c ∨ isOneOf ['/', '*', ':', '@', '[', ']'] c) :
    isUrlChar c := by
  rcases h with halpha | huser | hone
  · exact isUrlChar_of_isAlphanum (by simp [isAlphanum, halpha])
  · simp only [isUserinfoChar, isMark, Bool.or_eq_true] at huser
    obtain (halphanum | hmark) | hone := huser
    · exact isUrlChar_of_isAlphanum halphanum
    · exact isUrlChar_of_all (by decide) hmark
    · exact isUrlChar_of_all (by decide) hone
  · exact isUrlChar_of_all (by decide) hone

theorem isOneOf_of_isUrlChar (c : UInt8) (h : isUrlChar c) :
    isOneOf ['?'] c = false ∧ isOneOf ['#'] c = false ∧
      isOneOf [' ', '\r', '\n', '\t', '\x0c'] c = false := by
  have hnone {chars : List Char} (hchars : (chars.any fun x => isUrlChar x.toUInt8) = false) :
      isOneOf chars c = false := by
    rw [Bool.eq_false_iff]
    intro hone
    obtain ⟨x, hmem, rfl⟩ := isOneOf_iff.mp hone
    exact List.any_eq_false.mp hchars x hmem h
  exact ⟨hnone (by decide), hnone (by decide), hnone (by decide)⟩

theorem isOneOf_of_separator (c : UInt8) (h : isOneOf ['?', '#'] c) :
    isOneOf ['?'] c = !isOneOf ['#'] c ∧
      isOneOf [' ', '\r', '\n', '\t', '\x0c'] c = false := by
  obtain ⟨x, hmem, rfl⟩ := isOneOf_iff.mp h
  simp only [List.mem_cons, List.not_mem_nil, or_false] at hmem
  rcases hmem with rfl | rfl <;> decide

theorem isOneOf_hash_of_mark (c : UInt8) (h : isOneOf ['?'] c) : isOneOf ['#'] c = false := by
  obtain ⟨x, hmem, rfl⟩ := isOneOf_iff.mp h
  obtain rfl := List.mem_singleton.mp hmem
  rfl

theorem isUrlChar_of_isOneOf {chars : List Char} (hsub : chars ⊆ ['/', '*', ':', '@', '[', ']'])
    {c : UInt8} (h : isOneOf chars c) : isUrlChar c :=
  isUrlChar_of_class c (.inr (.inr (isOneOf_mono hsub h)))

/-- The transitions of the server states. -/
theorem parseServerChar_cases (c : UInt8) (h : parseServerChar c ≠ .dead) :
    ((parseServerChar c).isEarly ∧ isUrlChar c) ∨
    (parseServerChar c = .path ∧ isOneOf ['/', '*'] c ∧ isUrlChar c) ∨
    (parseServerChar c = .queryStringStart ∧ isOneOf ['?'] c) := by
  unfold parseServerChar at h ⊢
  split
  next hslash =>
    exact .inr (.inl ⟨rfl, isOneOf_mono (by simp) hslash, isUrlChar_of_isOneOf (by simp) hslash⟩)
  next hslash =>
    rw [if_neg hslash] at h
    split
    next hmark => exact .inr (.inr ⟨rfl, hmark⟩)
    next hmark =>
      rw [if_neg hmark] at h
      split
      next hat => exact .inl ⟨rfl, isUrlChar_of_isOneOf (by simp) hat⟩
      next hat =>
        rw [if_neg hat] at h
        split
        next hserver =>
          rw [Bool.or_eq_true] at hserver
          rcases hserver with huser | hbracket
          · exact .inl ⟨rfl, isUrlChar_of_class c (.inr (.inl huser))⟩
          · exact .inl ⟨rfl, isUrlChar_of_isOneOf (by simp) hbracket⟩
        next hserver => exact absurd (if_neg hserver) h

/-- Every transition of the automaton, with what it says about the character. -/
theorem parseUrlChar_cases (s : UrlState) (c : UInt8) (h : parseUrlChar s c ≠ .dead) :
    (s.isEarly ∧ (parseUrlChar s c).isEarly ∧ isUrlChar c) ∨
    (s.isEarly ∧ parseUrlChar s c = .path ∧ isOneOf ['/', '*'] c ∧ isUrlChar c) ∨
    (s = .path ∧ parseUrlChar s c = .path ∧ isUrlChar c) ∨
    ((s.isEarly ∨ s = .path) ∧ parseUrlChar s c = .queryStringStart ∧ isOneOf ['?'] c) ∨
    (s.isQuery ∧ parseUrlChar s c = .queryString ∧ (isUrlChar c ∨ isOneOf ['?'] c)) ∨
    (s.isTail ∧ parseUrlChar s c = .fragmentStart ∧ isOneOf ['#'] c) ∨
    (s.isFragment ∧ parseUrlChar s c = .fragment ∧ isUrlByte c) := by
  have hserver := parseServerChar_cases c
  have halpha : isAlpha c → isUrlChar c := fun hc => isUrlChar_of_class c (.inl hc)
  have hslash : isOneOf ['/'] c → isUrlChar c := isUrlChar_of_isOneOf (by simp)
  have hstar : isOneOf ['/', '*'] c → isUrlChar c := isUrlChar_of_isOneOf (by simp)
  have hcolon : isOneOf [':'] c → isUrlChar c := isUrlChar_of_isOneOf (by simp)
  have hmark : isOneOf ['?'] c → isOneOf ['?', '#'] c := isOneOf_mono (by simp)
  unfold parseUrlChar at h ⊢
  split at h
  · exact absurd rfl h
  · rename_i hspace
    rw [if_neg hspace]
    -- With these facts about the character the rest is the table of the automaton.
    cases s <;> grind [isUrlByte, UrlState.isEarly, UrlState.isQuery, UrlState.isTail,
      UrlState.isFragment]

/-- No URL begins with a fragment. -/
theorem notHash_of_first (c : UInt8) (h : parseUrlChar .spacesBeforeUrl c ≠ .dead) : notHash c := by
  by_contra hhash
  rw [notHash, Bool.not_eq_true', Bool.not_eq_false, isOneOf_iff] at hhash
  obtain ⟨x, hmem, rfl⟩ := hhash
  obtain rfl := List.mem_singleton.mp hmem
  exact h rfl

theorem isUrlByte_of_parseUrlChar (s : UrlState) (c : UInt8) (h : parseUrlChar s c ≠ .dead) :
    isUrlByte c := by
  have hcases := parseUrlChar_cases s c h
  grind [isUrlByte, isOneOf]

theorem parseUrlChar_path (c : UInt8) (hc : isUrlByte c) :
    parseUrlChar .path c =
      if isOneOf ['?'] c then .queryStringStart
      else if isOneOf ['#'] c then .fragmentStart else .path := by
  have hurl := isOneOf_of_isUrlChar c
  have hsep := isOneOf_of_separator c
  grind [parseUrlChar, isUrlByte]

theorem parseUrlChar_query (s : UrlState) (c : UInt8) (hs : s.isQuery) (hc : isUrlByte c) :
    parseUrlChar s c = if isOneOf ['#'] c then .fragmentStart else .queryString := by
  have hurl := isOneOf_of_isUrlChar c
  have hsep := isOneOf_of_separator c
  cases s with
  | queryStringStart | queryString => grind [parseUrlChar, isUrlByte]
  | _ => cases hs

theorem isFragment_parseUrlChar (s : UrlState) (c : UInt8) (hs : s.isFragment)
    (hc : isUrlByte c) : (parseUrlChar s c).isFragment := by
  have hurl := isOneOf_of_isUrlChar c
  have hsep := isOneOf_of_separator c
  cases s with
  | fragmentStart | fragment => grind [parseUrlChar, isUrlByte, UrlState.isFragment]
  | _ => cases hs

theorem isTail_parseUrlChar (s : UrlState) (c : UInt8) (hs : s.isTail) (hc : isUrlByte c) :
    (parseUrlChar s c).isTail := by
  cases s with
  | path => grind [parseUrlChar_path, UrlState.isTail]
  | queryStringStart | queryString => grind [parseUrlChar_query, UrlState.isTail, UrlState.isQuery]
  | fragmentStart | fragment => exact UrlState.isTail_of_isFragment (isFragment_parseUrlChar _ c (by rfl) hc)
  | _ => cases hs

/-! ## One turn of the loop -/

namespace UrlScan

variable {scan scan' : UrlScan} {c : UInt8} {w y : Bytes}

/-- Everything a turn of the loop can do. -/
theorem next_cases (h : scan.next c = some scan') :
    parseUrlChar scan.s c ≠ .dead ∧ scan'.s = parseUrlChar scan.s c ∧ scan'.p = scan.p + 1 ∧
    scan'.foundAt = (scan.foundAt || parseUrlChar scan.s c == .serverWithAt) ∧
    ((scan'.s.field = none ∧ scan'.fields = scan.fields ∧ scan'.oldUf = scan.oldUf) ∨
      ∃ uf, scan'.s.field = some uf ∧ scan'.oldUf = some uf ∧
        scan'.fields = if scan.oldUf = some uf then scan.fields.grow uf
          else scan.fields.start uf scan.p) := by
  unfold next at h
  dsimp only at h
  split at h
  · cases h
  · rename_i hdead
    split at h
    · rename_i hfield
      cases h
      exact ⟨hdead, rfl, rfl, rfl, .inl ⟨hfield, rfl, rfl⟩⟩
    · rename_i uf hfield
      split at h
      · rename_i hold
        cases h
        exact ⟨hdead, rfl, rfl, rfl, .inr ⟨uf, hfield, hold, (if_pos hold).symm⟩⟩
      · rename_i hold
        cases h
        exact ⟨hdead, rfl, rfl, rfl, .inr ⟨uf, hfield, rfl, (if_neg hold).symm⟩⟩

theorem next_isSome (h : parseUrlChar scan.s c ≠ .dead) : ∃ scan', scan.next c = some scan' := by
  unfold next
  dsimp only
  rw [if_neg h]
  split
  · exact ⟨_, rfl⟩
  · split <;> exact ⟨_, rfl⟩

/-- A query is entered only from its separator or from itself. -/
theorem isQuery_of_next (h : scan.next c = some scan') (hnew : scan'.s = .queryString) :
    scan.s.isQuery := by
  obtain ⟨hdead, hs, -, -, -⟩ := next_cases h
  have hcases := parseUrlChar_cases scan.s c hdead
  rw [← hs, hnew] at hcases
  grind [UrlState.isEarly]

/-- A turn leaves every field alone but that of its new state. -/
theorem fields_next (h : scan.next c = some scan') {uf : UrlField} (huf : scan'.s.field ≠ some uf) :
    scan'.fields uf = scan.fields uf := by
  obtain ⟨-, -, -, -, ⟨-, hfields, -⟩ | ⟨new, hnew, -, hfields⟩⟩ := next_cases h
  · rw [hfields]
  · have hne : uf ≠ new := fun heq => huf (heq ▸ hnew)
    rw [hfields]
    split
    · exact Function.update_of_ne hne _ _
    · exact Function.update_of_ne hne _ _

theorem run_append (scan : UrlScan) (w y : Bytes) :
    scan.run (w ++ y) = (scan.run w).bind fun mid => mid.run y := by
  induction w generalizing scan with
  | nil => rfl
  | cons c rest ih => simp only [List.cons_append, run, ih, Option.bind_assoc]

theorem run_concat (scan : UrlScan) (w : Bytes) (c : UInt8) :
    scan.run (w ++ [c]) = (scan.run w).bind fun mid => mid.next c := by
  simp [run_append, run]

/-- **Induction over the loop.**  What holds before the first character and is
kept by every turn holds of the scan of any prefix. -/
theorem run_induction {I : Bytes → UrlScan → Prop} {first : UrlScan} (hinit : I [] first)
    (hnext : ∀ w scan c scan', I w scan → scan.next c = some scan' → I (w ++ [c]) scan')
    (h : first.run w = some scan) : I w scan := by
  induction w using List.reverseRecOn generalizing scan with
  | nil =>
      cases h
      exact hinit
  | append_singleton w c ih =>
      rw [run_concat, Option.bind_eq_some_iff] at h
      obtain ⟨mid, hmid, hlast⟩ := h
      exact hnext w mid c scan (ih hmid) hlast

/-! ## Where the fields are -/

/-- The fields noted so far lie in the characters read so far. -/
structure Placed (w : Bytes) (scan : UrlScan) : Prop where
  p_eq : scan.p = w.length
  le : ∀ uf data, scan.fields uf = some data → data.off + data.len ≤ w.length
  port : scan.fields .port = none
  userinfo : scan.fields .userinfo = none

theorem Placed.next (inv : scan.Placed w) (h : scan.next c = some scan') :
    scan'.Placed (w ++ [c]) := by
  obtain ⟨-, -, hp, -, hfields⟩ := next_cases h
  have hport : scan'.s.field ≠ some .port := by cases scan'.s <;> simp [UrlState.field]
  have huser : scan'.s.field ≠ some .userinfo := by cases scan'.s <;> simp [UrlState.field]
  refine ⟨by rw [hp, inv.p_eq, List.length_append, List.length_singleton], ?_,
    (fields_next h hport).trans inv.port, (fields_next h huser).trans inv.userinfo⟩
  intro uf data hdata
  rw [List.length_append, List.length_singleton]
  by_cases huf : scan'.s.field = some uf
  · obtain ⟨hnone, -, -⟩ | ⟨new, hnew, -, hset⟩ := hfields
    · rw [hnone] at huf
      cases huf
    · obtain rfl : new = uf := Option.some.inj (hnew.symm.trans huf)
      rw [hset] at hdata
      split at hdata
      · simp only [UrlFields.grow, Function.update_self, Option.map_eq_some_iff] at hdata
        obtain ⟨old, hold, rfl⟩ := hdata
        have hle := inv.le new old hold
        have hmod : toUInt16 (old.len + 1) ≤ old.len + 1 := Nat.mod_le _ _
        show old.off + toUInt16 (old.len + 1) ≤ w.length + 1
        omega
      · simp only [UrlFields.start, Function.update_self, Option.some.injEq] at hdata
        have hmod : toUInt16 scan.p ≤ scan.p := Nat.mod_le _ _
        have hpos := inv.p_eq
        rw [← hdata]
        show toUInt16 scan.p + 1 ≤ w.length + 1
        omega
  · rw [fields_next h huf] at hdata
    exact (inv.le uf data hdata).trans (Nat.le_succ _)

/-- Where the loop is in the URL: which of path and query were noted, and which
of them the next character would extend. -/
structure Phased (scan : UrlScan) : Prop where
  alive : scan.s ≠ .dead
  early : scan.s.isEarly → scan.fields .path = none ∧ scan.oldUf ≠ some .path
  path : scan.s = .path → scan.oldUf = some .path ∧ (scan.fields .path).isSome
  unqueried : scan.s.isEarly ∨ scan.s = .path ∨ scan.s = .queryStringStart →
    scan.fields .query = none ∧ scan.oldUf ≠ some .query
  query : scan.s = .queryString → scan.oldUf = some .query ∧ (scan.fields .query).isSome

theorem isSome_fields_next (h : scan.next c = some scan') {uf : UrlField}
    (huf : scan'.s.field = some uf) (hset : scan.oldUf = some uf → (scan.fields uf).isSome) :
    scan'.oldUf = some uf ∧ (scan'.fields uf).isSome := by
  obtain ⟨-, -, -, -, ⟨hnone, -, -⟩ | ⟨new, hnew, hold, hfields⟩⟩ := next_cases h
  · rw [hnone] at huf
    cases huf
  · obtain rfl : new = uf := Option.some.inj (hnew.symm.trans huf)
    refine ⟨hold, ?_⟩
    rw [hfields]
    split
    · simpa [UrlFields.grow] using hset ‹_›
    · simp [UrlFields.start]

/-- A turn whose new state does not belong to `uf` does not make it the field to
extend. -/
theorem oldUf_next (h : scan.next c = some scan') {uf : UrlField} (huf : scan'.s.field ≠ some uf)
    (hold : scan.oldUf ≠ some uf) : scan'.oldUf ≠ some uf := by
  obtain ⟨-, -, -, -, ⟨-, -, hsame⟩ | ⟨new, hnew, hset, -⟩⟩ := next_cases h
  · rwa [hsame]
  · intro heq
    exact huf (hnew.trans (hset.symm.trans heq))

theorem Phased.next (inv : scan.Phased) (h : scan.next c = some scan') : scan'.Phased := by
  obtain ⟨hdead, hs, -, -, -⟩ := next_cases h
  have hcases := parseUrlChar_cases scan.s c hdead
  rw [← hs] at hcases hdead
  refine ⟨hdead, ?_, ?_, ?_, ?_⟩
  · intro hnew
    have hold : scan.s.isEarly := by grind [UrlState.isEarly]
    obtain ⟨hpath, -⟩ := UrlState.field_of_isEarly hnew
    exact ⟨(fields_next h hpath).trans (inv.early hold).1, oldUf_next h hpath (inv.early hold).2⟩
  · intro hnew
    have hfield : scan'.s.field = some .path := by rw [hnew]; rfl
    refine isSome_fields_next h hfield fun hold => ?_
    rcases hcases with ⟨-, he, -⟩ | ⟨he, -⟩ | ⟨hp, -⟩ | ⟨-, he, -⟩ | ⟨-, he, -⟩ | ⟨-, he, -⟩ | ⟨-, he, -⟩
    · rw [hnew] at he
      cases he
    · exact absurd hold (inv.early he).2
    · exact (inv.path hp).2
    all_goals rw [hnew] at he; cases he
  · intro hnew
    have hquery : scan'.s.field ≠ some .query := by
      rcases hnew with hnew | hnew | hnew
      · exact (UrlState.field_of_isEarly hnew).2
      all_goals rw [hnew]; simp [UrlState.field]
    have hold : scan.s.isEarly ∨ scan.s = .path ∨ scan.s = .queryStringStart := by
      grind [UrlState.isEarly]
    obtain ⟨hnone, hne⟩ := inv.unqueried hold
    exact ⟨(fields_next h hquery).trans hnone, oldUf_next h hquery hne⟩
  · intro hnew
    have hfield : scan'.s.field = some .query := by rw [hnew]; rfl
    refine isSome_fields_next h hfield fun hold => ?_
    have hs := isQuery_of_next h hnew
    cases hq : scan.s with
    | queryStringStart => exact absurd hold (inv.unqueried (.inr (.inr hq))).2
    | queryString => exact (inv.query hq).2
    | _ => rw [hq] at hs; cases hs

/-! ## How long path and query can be -/

theorem length_takeWhile_concat_le (f : UInt8 → Bool) (w : Bytes) (c : UInt8) :
    (w.takeWhile f).length ≤ ((w ++ [c]).takeWhile f).length := by
  rw [List.takeWhile_append]
  split
  · rw [List.length_append]
    omega
  · exact Nat.le_refl _

/-- The path lies before the first separator, the query after one and before the
fragment. -/
structure Measured (w : Bytes) (scan : UrlScan) : Prop where
  nonempty : scan.s ≠ .spacesBeforeUrl → w ≠ []
  plain : scan.s.isEarly ∨ scan.s = .path → ∀ x ∈ w, isUrlChar x
  hash : scan.s.isFragment ↔ ∃ x ∈ w, isOneOf ['#'] x
  path_le : ∀ data, scan.fields .path = some data → data.len ≤ (w.takeWhile isUrlChar).length
  path_pos : w.length < 65536 → ∀ data, scan.fields .path = some data → 0 < data.len
  query_lt : ∀ data, scan.fields .query = some data → data.len < (w.takeWhile notHash).length

theorem Measured.plain_next (inv : scan.Measured w) (h : scan.next c = some scan')
    (hnew : scan'.s.isEarly ∨ scan'.s = .path) : ∀ x ∈ w ++ [c], isUrlChar x := by
  obtain ⟨hdead, hs, -, -, -⟩ := next_cases h
  have hcases := parseUrlChar_cases scan.s c hdead
  rw [← hs] at hcases
  have hold : (scan.s.isEarly ∨ scan.s = .path) ∧ isUrlChar c := by grind [UrlState.isEarly]
  intro x hx
  rcases List.mem_append.mp hx with hx | hx
  · exact inv.plain hold.1 x hx
  · exact List.mem_singleton.mp hx ▸ hold.2

theorem Measured.hash_next (inv : scan.Measured w) (h : scan.next c = some scan') :
    scan'.s.isFragment ↔ ∃ x ∈ w ++ [c], isOneOf ['#'] x := by
  obtain ⟨hdead, hs, -, -, -⟩ := next_cases h
  have hcases := parseUrlChar_cases scan.s c hdead
  rw [← hs] at hcases
  have hurl : isUrlChar c → isOneOf ['#'] c = false := fun hc => (isOneOf_of_isUrlChar c hc).2.1
  have hmark := isOneOf_hash_of_mark c
  have hstay : scan.s.isFragment = false → scan'.s.isFragment = false → isOneOf ['#'] c = false →
      (scan'.s.isFragment ↔ scan.s.isFragment ∨ isOneOf ['#'] c) := by
    intro hold hnew hc
    simp [hold, hnew, hc]
  have hnew : scan'.s.isFragment ↔ scan.s.isFragment ∨ isOneOf ['#'] c := by
    rcases hcases with ⟨he, hn, hc⟩ | ⟨he, hn, -, hc⟩ | ⟨he, hn, hc⟩ | ⟨he | he, hn, hc⟩ |
        ⟨he, hn, hc⟩ | ⟨he, hn, hc⟩ | ⟨he, hn, hc⟩
    · exact hstay (UrlState.isFragment_of_isEarly he) (UrlState.isFragment_of_isEarly hn) (hurl hc)
    · exact hstay (UrlState.isFragment_of_isEarly he) (hn ▸ rfl) (hurl hc)
    · exact hstay (he ▸ rfl) (hn ▸ rfl) (hurl hc)
    · exact hstay (UrlState.isFragment_of_isEarly he) (hn ▸ rfl) (hmark hc)
    · exact hstay (he ▸ rfl) (hn ▸ rfl) (hmark hc)
    · exact hstay (UrlState.isFragment_of_isQuery he) (hn ▸ rfl) (hc.elim hurl hmark)
    · simp only [hn, hc, or_true, iff_true]
      rfl
    · simp only [hn, he, true_or, iff_true]
      rfl
  rw [hnew, inv.hash]
  simp [or_and_right, exists_or]

theorem Measured.query_next (inv : scan.Measured w) (h : scan.next c = some scan') {data : FieldData}
    (hdata : scan'.fields .query = some data) : data.len < ((w ++ [c]).takeWhile notHash).length := by
  by_cases hnew : scan'.s.field = some .query
  · have hs := UrlState.eq_queryString_of_field hnew
    have hfragment : ¬scan'.s.isFragment := by
      rw [hs]
      exact Bool.false_ne_true
    have hall : ∀ x ∈ w ++ [c], notHash x := by
      intro x hx
      rw [inv.hash_next h] at hfragment
      simpa [notHash] using fun hhash => hfragment ⟨x, hx, hhash⟩
    rw [List.takeWhile_eq_self_iff.mpr hall, List.length_append, List.length_singleton]
    have hpos : 0 < w.length := by
      refine List.length_pos_of_ne_nil (inv.nonempty fun hspaces => ?_)
      have hquery := isQuery_of_next h hs
      rw [hspaces] at hquery
      cases hquery
    obtain ⟨-, -, -, -, ⟨hnone, -, -⟩ | ⟨new, hfield, -, hset⟩⟩ := next_cases h
    · rw [hnone] at hnew
      cases hnew
    · obtain rfl : new = .query := Option.some.inj (hfield.symm.trans hnew)
      rw [hset] at hdata
      split at hdata
      · simp only [UrlFields.grow, Function.update_self, Option.map_eq_some_iff] at hdata
        obtain ⟨old, hold, rfl⟩ := hdata
        have hlt := (inv.query_lt old hold).trans_le (List.takeWhile_sublist _).length_le
        have hmod : toUInt16 (old.len + 1) ≤ old.len + 1 := Nat.mod_le _ _
        show toUInt16 (old.len + 1) < w.length + 1
        omega
      · simp only [UrlFields.start, Function.update_self, Option.some.injEq] at hdata
        rw [← hdata]
        show 1 < w.length + 1
        omega
  · rw [fields_next h hnew] at hdata
    exact (inv.query_lt data hdata).trans_le (length_takeWhile_concat_le _ w c)

theorem Measured.path_pos_next (inv : scan.Measured w) (hplaced : scan.Placed w)
    (h : scan.next c = some scan') (hlen : (w ++ [c]).length < 65536) {data : FieldData}
    (hdata : scan'.fields .path = some data) : 0 < data.len := by
  rw [List.length_append, List.length_singleton] at hlen
  by_cases hnew : scan'.s.field = some .path
  · obtain ⟨-, -, -, -, ⟨hnone, -, -⟩ | ⟨new, hfield, -, hset⟩⟩ := next_cases h
    · rw [hnone] at hnew
      cases hnew
    · obtain rfl : new = .path := Option.some.inj (hfield.symm.trans hnew)
      rw [hset] at hdata
      split at hdata
      · simp only [UrlFields.grow, Function.update_self, Option.map_eq_some_iff] at hdata
        obtain ⟨old, hold, rfl⟩ := hdata
        have hle := hplaced.le _ _ hold
        have hmod : toUInt16 (old.len + 1) = old.len + 1 := Nat.mod_eq_of_lt (by omega)
        show 0 < toUInt16 (old.len + 1)
        omega
      · simp only [UrlFields.start, Function.update_self, Option.some.injEq] at hdata
        rw [← hdata]
        exact Nat.one_pos
  · rw [fields_next h hnew] at hdata
    exact inv.path_pos (by omega) data hdata

theorem Measured.next (inv : scan.Measured w) (hplaced : scan.Placed w)
    (h : scan.next c = some scan') : scan'.Measured (w ++ [c]) := by
  refine ⟨fun _ => by simp, inv.plain_next h, inv.hash_next h, ?_,
    fun hlen _ => inv.path_pos_next hplaced h hlen, ?_⟩
  · intro data hdata
    by_cases hnew : scan'.s.field = some .path
    · have hs := UrlState.eq_path_of_field hnew
      rw [List.takeWhile_eq_self_iff.mpr (inv.plain_next h (.inr hs))]
      have hle := (hplaced.next h).le _ _ hdata
      omega
    · rw [fields_next h hnew] at hdata
      exact (inv.path_le data hdata).trans (length_takeWhile_concat_le _ w c)
  · intro data hdata
    exact inv.query_next h hdata

/-! ## From the path on -/

/-- A path begins with a character at which every number before it ends, and the
host lies before that character. -/
def Parted (w : Bytes) (scan : UrlScan) : Prop :=
  (scan.fields .path).isSome → ∃ before x after, w = before ++ x :: after ∧
    isOneOf ['/', '*'] x ∧ ∀ host, scan.fields .host = some host → host.off + host.len ≤ before.length

theorem Parted.next (inv : scan.Parted w) (hplaced : scan.Placed w) (hphased : scan.Phased)
    (h : scan.next c = some scan') : scan'.Parted (w ++ [c]) := by
  intro hsome
  obtain ⟨hdead, hs, -, -, -⟩ := next_cases h
  have hcases := parseUrlChar_cases scan.s c hdead
  rw [← hs] at hcases
  -- from an old path on, the host stays and the text only gets longer
  have hkeep : scan'.s.field ≠ some .host → (scan.fields .path).isSome →
      ∃ before x after, w ++ [c] = before ++ x :: after ∧ isOneOf ['/', '*'] x ∧
        ∀ host, scan'.fields .host = some host → host.off + host.len ≤ before.length := by
    intro hfield hold
    obtain ⟨before, x, after, rfl, hx, hhost⟩ := inv hold
    refine ⟨before, x, after ++ [c], by simp, hx, ?_⟩
    rw [fields_next h hfield]
    exact hhost
  have hearlier : scan'.s.field ≠ some .path → (scan.fields .path).isSome := by
    intro hfield
    rwa [← fields_next h hfield]
  rcases hcases with ⟨-, hn, -⟩ | ⟨-, hn, hc, -⟩ | ⟨he, hn, -⟩ | ⟨-, hn, -⟩ | ⟨-, hn, -⟩ | ⟨-, hn, -⟩ |
      ⟨-, hn, -⟩
  · rw [((hphased.next h).early hn).1] at hsome
    cases hsome
  · refine ⟨w, c, [], rfl, hc, fun host hhost => ?_⟩
    rw [fields_next h (by rw [hn]; simp [UrlState.field])] at hhost
    exact hplaced.le _ _ hhost
  · exact hkeep (by rw [hn]; simp [UrlState.field]) (hphased.path he).2
  all_goals
    exact hkeep (by rw [hn]; simp [UrlState.field]) (hearlier (by rw [hn]; simp [UrlState.field]))

/-- What holds of the scan of any URL. -/
structure Scanned (w : Bytes) (scan : UrlScan) : Prop where
  placed : scan.Placed w
  phased : scan.Phased
  measured : scan.Measured w
  parted : scan.Parted w

theorem scanned_of_run (h : (init false).run w = some scan) : scan.Scanned w := by
  refine run_induction ?_ ?_ h
  · refine ⟨⟨rfl, ?_, rfl, rfl⟩, ⟨?_, ?_, ?_, ?_, ?_⟩, ⟨?_, ?_, ?_, ?_, ?_, ?_⟩, ?_⟩ <;>
      simp [init, Parted, UrlState.isFragment]
  · intro w scan c scan' inv hnext
    exact ⟨inv.placed.next hnext, inv.phased.next hnext, inv.measured.next inv.placed hnext,
      inv.parted.next inv.placed inv.phased hnext⟩

theorem Scanned.isTail_of_path (inv : scan.Scanned w) (h : (scan.fields .path).isSome) :
    scan.s.isTail := by
  by_contra htail
  have hearly := UrlState.isEarly_of_not_isTail htail inv.phased.alive
  rw [(inv.phased.early hearly).1] at h
  cases h

/-- The part of the scan that a URL with a path has settled. -/
structure Extends (scan scan' : UrlScan) : Prop where
  tail : scan'.s.isTail
  foundAt : scan'.foundAt = scan.foundAt
  fields : ∀ uf, uf = .schema ∨ uf = .host ∨ uf = .port ∨ uf = .userinfo →
    scan'.fields uf = scan.fields uf
  path : (scan.fields .path).isSome → (scan'.fields .path).isSome

theorem extends_next (hs : scan.s.isTail) (hc : isUrlByte c) :
    ∃ scan', scan.next c = some scan' ∧ scan.Extends scan' := by
  have htail := isTail_parseUrlChar scan.s c hs hc
  have hdead : parseUrlChar scan.s c ≠ .dead := by
    intro hdead
    rw [hdead] at htail
    cases htail
  obtain ⟨scan', h⟩ := next_isSome hdead
  obtain ⟨-, hnew, -, hat, -⟩ := next_cases h
  rw [← hnew] at htail
  refine ⟨scan', h, htail, ?_, ?_, ?_⟩
  · have hserver : (scan'.s == .serverWithAt) = false := by
      rw [beq_eq_false_iff_ne]
      intro hserver
      rw [hserver] at htail
      cases htail
    rw [hat, ← hnew, hserver, Bool.or_false]
  · intro uf huf
    exact fields_next h (UrlState.field_of_isTail htail huf)
  · intro hpath
    by_cases hfield : scan'.s.field = some .path
    · exact (isSome_fields_next h hfield fun _ => hpath).2
    · rwa [fields_next h hfield]

/-- From the path on, a URL can go on with any characters that URLs have. -/
theorem extends_run (hs : scan.s.isTail) (hy : ∀ x ∈ y, isUrlByte x) :
    ∃ scan', scan.run y = some scan' ∧ scan.Extends scan' := by
  induction y generalizing scan with
  | nil => exact ⟨scan, rfl, hs, rfl, fun _ _ => rfl, id⟩
  | cons c rest ih =>
      obtain ⟨mid, hmid, hext⟩ := extends_next hs (hy c List.mem_cons_self)
      obtain ⟨last, hlast, hext'⟩ := ih hext.tail fun x hx => hy x (List.mem_cons_of_mem c hx)
      refine ⟨last, ?_, hext'.tail, hext'.foundAt.trans hext.foundAt, ?_, hext'.path ∘ hext.path⟩
      · rw [run, hmid, Option.bind_some, hlast]
      · intro uf huf
        rw [hext'.fields uf huf, hext.fields uf huf]

end UrlScan

end Brynet.Http
