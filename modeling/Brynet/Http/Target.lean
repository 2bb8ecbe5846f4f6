import Brynet.Http.UrlScan

/-!
# Path and query of a URL

What `HTTPParser` takes from `http_parser_parse_url`: the path, without which it
rejects the request, and the query.  The parser accumulates URLs, so this file
is about the path and the query of two URLs written one after the other.

A URL that was accepted is still accepted with any URL behind it
(`target_append_isSome`).  Which path and query the two have together depends on
where the first one stopped: within the path and within the query the second one
is appended to it, within the fragment it is ignored.

* `httpParseHost_append` and `finishUrl_append`: what comes after the loop, the host and the
  port, does not see what is written behind the URL;
* `target_eq_some_iff`: path and query in terms of the loop alone;
* `length_run_of_isQuery` and `length_run_of_path`: by how much a second URL makes the query
  or the path longer, as long as the length does not wrap around at sixteen bits.

So without a fragment in the first URL, what two URLs show together is longer than what the
second shows alone (`shown_append_ne`).
-/

namespace Brynet.Http

open Memory

/-- The path and, if there is one, the query that `sHeadComplete` finds in
`url`. -/
def target (url : Bytes) : Option (Bytes × Option Bytes) :=
  (httpParserParseUrl url false).bind fun u =>
    (u.fields .path).map fun path =>
      (slice url path.off path.len, (u.fields .query).map fun query => slice url query.off query.len)

/-! ## What follows the loop -/

/-- The fields that `http_parse_host` reads and writes. -/
def UrlField.isAuthority : UrlField → Bool
  | .host | .port | .userinfo => true
  | _ => false

def UrlFields.Agree (fields fields' : UrlFields) : Prop :=
  ∀ uf, uf.isAuthority → fields uf = fields' uf

section Host

variable {fields fields' result : UrlFields} {s s' : HostState} {p : ℕ} {bytes : Bytes}

theorem UrlFields.Agree.update (h : fields.Agree fields') {uf : UrlField}
    {data : Option FieldData} :
    UrlFields.Agree (Function.update fields uf data) (Function.update fields' uf data) := by
  intro other hother
  by_cases heq : other = uf
  · subst heq
    simp
  · simp [Function.update_of_ne heq, h other hother]

theorem UrlFields.Agree.hostFields (h : fields.Agree fields') (s new : HostState) (p : ℕ) :
    (hostFields fields s new p).Agree (hostFields fields' s new p) := by
  have hgrow : ∀ {f f' : UrlFields}, f.Agree f' → ∀ uf, uf.isAuthority →
      (f.grow uf).Agree (f'.grow uf) := by
    intro f f' hf uf huf
    unfold UrlFields.grow
    rw [hf uf huf]
    exact hf.update
  have hmove : (fields.moveTo .host p).Agree (fields'.moveTo .host p) := by
    unfold UrlFields.moveTo
    rw [h .host rfl]
    exact h.update
  cases new with
  | host | v6 =>
      refine hgrow ?_ .host rfl
      split
      · exact h
      · exact hmove
  | v6ZoneStart | v6Zone => exact hgrow h .host rfl
  | port =>
      show UrlFields.Agree (if _ then _ else _) (if _ then _ else _)
      split
      · exact hgrow h .port rfl
      · exact h.update
  | userinfo =>
      show UrlFields.Agree (if _ then _ else _) (if _ then _ else _)
      split
      · exact hgrow h .userinfo rfl
      · exact h.update
  | _ => exact h

/-- `http_parse_host` touches no other field. -/
theorem hostFields_of_not_isAuthority (fields : UrlFields) (s new : HostState) (p : ℕ)
    {uf : UrlField} (h : uf.isAuthority = false) : hostFields fields s new p uf = fields uf := by
  have hhost : uf ≠ .host := fun heq => by rw [heq] at h; cases h
  have hport : uf ≠ .port := fun heq => by rw [heq] at h; cases h
  have huser : uf ≠ .userinfo := fun heq => by rw [heq] at h; cases h
  unfold hostFields
  split <;> (try split) <;>
    simp [UrlFields.grow, UrlFields.moveTo, UrlFields.start, Function.update_of_ne, hhost, hport,
      huser]

/-- The loop of `http_parse_host` depends on the fields it touches only. -/
theorem parseHostLoop_congr (hagree : fields.Agree fields')
    (h : parseHostLoop s p fields bytes = some (s', result)) :
    ∃ result', parseHostLoop s p fields' bytes = some (s', result') ∧ result.Agree result' ∧
      ∀ uf, uf.isAuthority = false → result' uf = fields' uf := by
  induction bytes generalizing s p fields fields' with
  | nil =>
      cases h
      exact ⟨fields', rfl, hagree, fun _ _ => rfl⟩
  | cons ch rest ih =>
      unfold parseHostLoop at h ⊢
      dsimp only at h ⊢
      split at h
      · cases h
      · rename_i hdead
        rw [if_neg hdead]
        obtain ⟨result', hrun, hresult, hframe⟩ :=
          ih (hagree.hostFields s (httpParseHostChar s ch) p) h
        refine ⟨result', hrun, hresult, fun uf huf => ?_⟩
        rw [hframe uf huf, hostFields_of_not_isAuthority _ _ _ _ huf]

theorem hostFields_port_le (hport : ∀ data, fields .port = some data → data.off ≤ p)
    {new : HostState} {data : FieldData} (h : hostFields fields s new p .port = some data) :
    data.off ≤ p + 1 := by
  have hkeep : fields .port = some data → data.off ≤ p + 1 := fun hdata =>
    (hport data hdata).trans (Nat.le_succ p)
  cases new with
  | port =>
      change (if _ then _ else _ : UrlFields) .port = some data at h
      split at h
      · simp only [UrlFields.grow, Function.update_self, Option.map_eq_some_iff] at h
        obtain ⟨old, hold, rfl⟩ := h
        exact (hport old hold).trans (Nat.le_succ p)
      · simp only [UrlFields.start, Function.update_self, Option.some.injEq] at h
        rw [← h]
        exact (Nat.mod_le _ _).trans (Nat.le_succ p)
  | host | v6 | userinfo =>
      refine hkeep ?_
      rw [← h]
      simp only [hostFields]
      split <;> simp [UrlFields.grow, UrlFields.moveTo, UrlFields.start]
  | v6ZoneStart | v6Zone =>
      refine hkeep ?_
      rw [← h]
      simp [hostFields, UrlFields.grow]
  | _ => exact hkeep h

/-- The port is found among the bytes that the loop reads. -/
theorem parseHostLoop_port (hport : ∀ data, fields .port = some data → data.off ≤ p)
    (h : parseHostLoop s p fields bytes = some (s', result)) {data : FieldData}
    (hdata : result .port = some data) : data.off ≤ p + bytes.length := by
  induction bytes generalizing s p fields with
  | nil =>
      cases h
      exact hport data hdata
  | cons ch rest ih =>
      unfold parseHostLoop at h
      dsimp only at h
      split at h
      · cases h
      · have hle := ih (fun data hdata => hostFields_port_le hport hdata) h
        rw [List.length_cons]
        omega

theorem dropWhile_append_of_mem {f : UInt8 → Bool} {x : UInt8} (hx : f x = false) {l : Bytes}
    (hmem : x ∈ l) (y : Bytes) :
    (l ++ y).dropWhile f = l.dropWhile f ++ y ∧ x ∈ l.dropWhile f := by
  induction l with
  | nil => cases hmem
  | cons a rest ih =>
      rw [List.cons_append, List.dropWhile_cons, List.dropWhile_cons]
      split
      · rcases List.mem_cons.mp hmem with rfl | hrest
        · simp_all
        · exact ih hrest
      · exact ⟨rfl, hmem⟩

theorem takeWhile_append_of_mem {f : UInt8 → Bool} {x : UInt8} (hx : f x = false) {l : Bytes}
    (hmem : x ∈ l) (y : Bytes) : (l ++ y).takeWhile f = l.takeWhile f := by
  rw [List.takeWhile_append, if_neg]
  intro hlen
  have hall := List.takeWhile_eq_self_iff.mp ((List.takeWhile_sublist f).eq_of_length hlen)
  rw [hall x hmem] at hx
  cases hx

theorem numberSign_append {x : UInt8} (hx : isOneOf ['-', '+'] x = false) {l : Bytes}
    (hmem : x ∈ l) (y : Bytes) :
    numberSign (l ++ y) = ((numberSign l).1, (numberSign l).2 ++ y) ∧ x ∈ (numberSign l).2 := by
  cases l with
  | nil => cases hmem
  | cons a rest =>
      have hrest : isOneOf ['-', '+'] a → x ∈ rest := by
        intro ha
        rcases List.mem_cons.mp hmem with rfl | hrest
        · rw [hx] at ha
          cases ha
        · exact hrest
      simp only [List.cons_append, numberSign]
      by_cases hminus : isOneOf ['-'] a
      · rw [if_pos hminus, if_pos hminus]
        exact ⟨rfl, hrest (by simp_all [isOneOf])⟩
      · rw [if_neg hminus, if_neg hminus]
        by_cases hplus : isOneOf ['+'] a
        · rw [if_pos hplus, if_pos hplus]
          exact ⟨rfl, hrest (by simp_all [isOneOf])⟩
        · rw [if_neg hplus, if_neg hplus]
          exact ⟨rfl, hmem⟩

/-- A number ends at the first character that is no digit, so text behind one
does not matter. -/
theorem strtoul_append {str : Bytes} {x : UInt8} (hx : isOneOf ['/', '*'] x) (hmem : x ∈ str)
    (y : Bytes) : strtoul (str ++ y) = strtoul str := by
  have hclass : ∀ x, isOneOf ['/', '*'] x →
      isSpace x = false ∧ isNum x = false ∧ isOneOf ['-', '+'] x = false := by
    intro x hx
    obtain ⟨sep, hsep, rfl⟩ := isOneOf_iff.mp hx
    simp only [List.mem_cons, List.not_mem_nil, or_false] at hsep
    rcases hsep with rfl | rfl <;> decide
  obtain ⟨hspace, hnum, hsign⟩ := hclass x hx
  obtain ⟨hdrop, hmem⟩ := dropWhile_append_of_mem hspace hmem y
  obtain ⟨hsigned, hmem⟩ := numberSign_append hsign hmem y
  unfold strtoul
  rw [hdrop, hsigned]
  dsimp only
  rw [takeWhile_append_of_mem hnum hmem y]

theorem slice_append {buf : Bytes} {off len : ℕ} (h : off + len ≤ buf.length) (y : Bytes) :
    slice (buf ++ y) off len = slice buf off len := by
  unfold slice
  rw [List.drop_append_of_le_length (by omega), List.take_append_of_le_length]
  rw [List.length_drop]
  omega

variable {w y : Bytes} {host : FieldData} {foundAt : Bool}

/-- `http_parse_host` reads the host field and nothing behind it. -/
theorem httpParseHost_append (hagree : fields.Agree fields')
    (hle : host.off + host.len ≤ w.length)
    (h : httpParseHost w fields host foundAt = some result) :
    ∃ result', httpParseHost (w ++ y) fields' host foundAt = some result' ∧
      result.Agree result' := by
  unfold httpParseHost at h ⊢
  rw [Option.bind_eq_some_iff] at h
  obtain ⟨⟨s, loop⟩, hloop, hfinal⟩ := h
  dsimp only at hfinal
  split at hfinal
  · rename_i hs
    cases hfinal
    obtain ⟨loop', hloop', hagree', -⟩ := parseHostLoop_congr hagree.update hloop
    refine ⟨loop', ?_, hagree'⟩
    rw [slice_append hle, hloop', Option.bind_some]
    exact if_pos hs
  · cases hfinal

theorem httpParseHost_port (hport : fields .port = none)
    (h : httpParseHost w fields host foundAt = some result) {data : FieldData}
    (hdata : result .port = some data) : data.off ≤ host.off + host.len := by
  unfold httpParseHost at h
  rw [Option.bind_eq_some_iff] at h
  obtain ⟨⟨s, loop⟩, hloop, hfinal⟩ := h
  dsimp only at hfinal
  split at hfinal
  · cases hfinal
    have hnone : ∀ data, (Function.update fields .host (some { host with len := 0 }) : UrlFields)
        .port = some data → data.off ≤ host.off := by
      intro data hdata
      rw [Function.update_of_ne (by simp), hport] at hdata
      cases hdata
    refine (parseHostLoop_port hnone hloop hdata).trans (Nat.add_le_add_left ?_ _)
    exact List.length_take_le _ _
  · cases hfinal

theorem finishPort_append {u : HttpParserUrl} (hagree : fields.Agree fields')
    (hsep : ∀ data, fields .port = some data → data.off ≤ w.length ∧
      ∃ x ∈ w.drop data.off, isOneOf ['/', '*'] x)
    (h : finishPort w fields = some u) : ∃ u', finishPort (w ++ y) fields' = some u' := by
  unfold finishPort at h ⊢
  rw [← hagree .port rfl]
  cases hport : fields .port with
  | none => exact ⟨_, rfl⟩
  | some data =>
      obtain ⟨hle, x, hmem, hx⟩ := hsep data hport
      rw [hport] at h
      dsimp only at h ⊢
      rw [List.drop_append_of_le_length hle, strtoul_append hx hmem]
      split at h
      · cases h
      · rename_i hv
        exact ⟨_, if_neg hv⟩

end Host

variable {w y : Bytes} {c : UInt8} {scan scan' : UrlScan} {u : HttpParserUrl}

theorem fields_finishPort {fields : UrlFields} (h : finishPort w fields = some u) :
    u.fields = fields := by
  unfold finishPort at h
  split at h
  · dsimp only at h
    split at h
    · cases h
    · cases h
      rfl
  · cases h
    rfl

/-- The last steps leave path and query alone. -/
theorem fields_finishUrl (h : finishUrl w false scan = some u) {uf : UrlField}
    (huf : uf.isAuthority = false) : u.fields uf = scan.fields uf := by
  unfold finishUrl at h
  split at h
  · cases h
  · dsimp only at h
    rw [Option.bind_eq_some_iff] at h
    obtain ⟨fields, hparsed, hfinish⟩ := h
    simp only [Bool.false_and, Bool.false_eq_true, if_false] at hfinish
    rw [fields_finishPort hfinish]
    split at hparsed
    · rename_i host hhost
      unfold httpParseHost at hparsed
      rw [Option.bind_eq_some_iff] at hparsed
      obtain ⟨⟨s, result⟩, hloop, hfinal⟩ := hparsed
      obtain ⟨result', hloop', -, hframe⟩ := parseHostLoop_congr (fun _ _ => rfl) hloop
      obtain rfl : result = result' := by
        rw [hloop] at hloop'
        simpa using hloop'
      dsimp only at hfinal
      split at hfinal
      · cases hfinal
        rw [hframe uf huf, Function.update_of_ne]
        rintro rfl
        cases huf
      · cases hfinal
    · cases hparsed
      rfl

/-- A URL with a path is still accepted with more text behind it. -/
theorem finishUrl_append (inv : scan.Scanned w) (hpath : (scan.fields .path).isSome)
    (hext : scan.Extends scan') (h : finishUrl w false scan = some u) :
    ∃ u', finishUrl (w ++ y) false scan' = some u' := by
  unfold finishUrl at h ⊢
  rw [hext.fields .schema (.inl rfl), hext.fields .host (.inr (.inl rfl)), hext.foundAt]
  split at h
  · cases h
  · rename_i hschema
    rw [if_neg hschema]
    dsimp only at h ⊢
    rw [Option.bind_eq_some_iff] at h
    obtain ⟨fields, hparsed, hfinish⟩ := h
    simp only [Bool.false_and, Bool.false_eq_true, if_false] at hfinish ⊢
    have hauthority : scan.fields.Agree scan'.fields := by
      intro uf huf
      refine (hext.fields uf ?_).symm
      cases uf <;> simp_all [UrlField.isAuthority]
    cases hhost : scan.fields .host with
    | none =>
        rw [hhost] at hparsed
        cases hparsed
        refine finishPort_append hauthority (fun data hdata => ?_) hfinish
        rw [inv.placed.port] at hdata
        cases hdata
    | some host =>
        rw [hhost] at hparsed
        obtain ⟨result, hresult, hagree⟩ :=
          httpParseHost_append (y := y) hauthority (inv.placed.le _ _ hhost) hparsed
        dsimp only
        rw [hresult, Option.bind_some]
        -- the number of the port ends at the path, which lies behind the host
        refine finishPort_append hagree (fun data hdata => ?_) hfinish
        obtain ⟨before, x, after, rfl, hx, hbefore⟩ := inv.parted hpath
        have hoff := (httpParseHost_port inv.placed.port hparsed hdata).trans (hbefore host hhost)
        refine ⟨?_, x, ?_, hx⟩
        · rw [List.length_append]
          omega
        · rw [List.drop_append_of_le_length hoff]
          exact List.mem_append_right _ List.mem_cons_self

/-! ## Two URLs in a row -/

/-- A target that was found is that of the scan. -/
theorem target_eq_some_iff {t : Bytes × Option Bytes} : target w = some t ↔
    ∃ scan u data, (UrlScan.init false).run w = some scan ∧ finishUrl w false scan = some u ∧
      scan.fields .path = some data ∧
      t = (slice w data.off data.len,
        (scan.fields .query).map fun query => slice w query.off query.len) := by
  unfold target httpParserParseUrl
  constructor
  · intro h
    rw [Option.bind_eq_some_iff] at h
    obtain ⟨u, hu, hpath⟩ := h
    rw [Option.bind_eq_some_iff] at hu
    obtain ⟨scan, hscan, hfinish⟩ := hu
    rw [fields_finishUrl hfinish rfl, fields_finishUrl hfinish rfl, Option.map_eq_some_iff] at hpath
    obtain ⟨data, hdata, rfl⟩ := hpath
    exact ⟨scan, u, data, hscan, hfinish, hdata, rfl⟩
  · rintro ⟨scan, u, data, hscan, hfinish, hdata, rfl⟩
    rw [hscan, Option.bind_some, hfinish, Option.bind_some, fields_finishUrl hfinish rfl,
      fields_finishUrl hfinish rfl, hdata]
    rfl

theorem isUrlByte_of_run (h : scan.run w = some scan') : ∀ x ∈ w, isUrlByte x := by
  induction w generalizing scan with
  | nil => simp
  | cons c rest ih =>
      rw [UrlScan.run, Option.bind_eq_some_iff] at h
      obtain ⟨mid, hmid, hrest⟩ := h
      intro x hx
      rcases List.mem_cons.mp hx with rfl | hx
      · exact isUrlByte_of_parseUrlChar _ _ (UrlScan.next_cases hmid).1
      · exact ih hrest x hx

/-- **Accumulated URLs are accepted.**  A URL with a path, followed by any
characters that occur in URLs, is a URL with a path, whatever its length. -/
theorem target_append_isSome (h : (target w).isSome) (hy : ∀ x ∈ y, isUrlByte x) :
    (target (w ++ y)).isSome := by
  obtain ⟨t, ht⟩ := Option.isSome_iff_exists.mp h
  obtain ⟨scan, u, data, hscan, hfinish, hdata, -⟩ := target_eq_some_iff.mp ht
  have inv := UrlScan.scanned_of_run hscan
  have hpath : (scan.fields .path).isSome := by rw [hdata]; rfl
  obtain ⟨scan', hrun, hext⟩ := UrlScan.extends_run (inv.isTail_of_path hpath) hy
  obtain ⟨u', hu'⟩ := finishUrl_append inv hpath hext hfinish
  obtain ⟨data', hdata'⟩ := Option.isSome_iff_exists.mp (hext.path hpath)
  refine Option.isSome_iff_exists.mpr ⟨_, target_eq_some_iff.mpr
    ⟨scan', u', data', ?_, hu', hdata', rfl⟩⟩
  rw [UrlScan.run_append, hscan, Option.bind_some, hrun]

namespace UrlScan

/-- Behind the path nothing is added to it. -/
theorem path_run (hs : scan.s.isQuery ∨ scan.s.isFragment) (h : scan.run y = some scan') :
    scan'.fields .path = scan.fields .path := by
  induction y generalizing scan with
  | nil =>
      cases h
      rfl
  | cons c rest ih =>
      rw [run, Option.bind_eq_some_iff] at h
      obtain ⟨mid, hmid, hrest⟩ := h
      obtain ⟨hdead, hs', -⟩ := next_cases hmid
      have hc := isUrlByte_of_parseUrlChar _ _ hdead
      have hmid' : mid.s.isQuery ∨ mid.s.isFragment := by
        rw [hs']
        rcases hs with hs | hs
        · rw [parseUrlChar_query _ _ hs hc]
          split
          · exact .inr rfl
          · exact .inl rfl
        · exact .inr (isFragment_parseUrlChar _ _ hs hc)
      rw [ih hmid' hrest, fields_next hmid (UrlState.field_of_past hmid')]

/-- Within the fragment nothing is added to the query. -/
theorem query_run (hs : scan.s.isFragment) (h : scan.run y = some scan') :
    scan'.fields .query = scan.fields .query := by
  induction y generalizing scan with
  | nil =>
      cases h
      rfl
  | cons c rest ih =>
      rw [run, Option.bind_eq_some_iff] at h
      obtain ⟨mid, hmid, hrest⟩ := h
      obtain ⟨hdead, hs', -⟩ := next_cases hmid
      have hfragment := isFragment_parseUrlChar scan.s c hs (isUrlByte_of_parseUrlChar _ _ hdead)
      rw [← hs'] at hfragment
      rw [ih hfragment hrest, fields_next hmid (UrlState.field_of_isFragment hfragment).2]

/-- The number of characters noted for a field. -/
def length (scan : UrlScan) (uf : UrlField) : ℕ := (scan.fields uf).elim 0 FieldData.len

theorem length_eq_of_fields_eq {uf : UrlField} (h : scan'.fields uf = scan.fields uf) :
    scan'.length uf = scan.length uf := by
  rw [length, length, h]

/-- A turn in a state of `uf` adds one character to it. -/
theorem length_next (h : scan.next c = some scan') (uf : UrlField) (huf : scan'.s.field = some uf)
    (hlen : scan.length uf + 1 < 65536) (hold : scan.oldUf = some uf ↔ (scan.fields uf).isSome) :
    scan'.length uf = scan.length uf + 1 := by
  obtain ⟨-, -, -, -, ⟨hnone, -, -⟩ | ⟨new, hnew, -, hfields⟩⟩ := next_cases h
  · rw [hnone] at huf
    cases huf
  · obtain rfl : new = uf := Option.some.inj (hnew.symm.trans huf)
    rw [length, hfields]
    cases hdata : scan.fields new with
    | none =>
        rw [if_neg (by rw [hold, hdata]; simp)]
        simp [UrlFields.start, length, hdata]
    | some data =>
        rw [length, hdata] at hlen
        rw [if_pos (by rw [hold, hdata]; rfl)]
        simp only [UrlFields.grow, Function.update_self, hdata, Option.map_some, Option.elim_some,
          length]
        exact Nat.mod_eq_of_lt hlen

/-- Within the query, the characters up to a fragment are added to it. -/
theorem length_run_of_isQuery (hs : scan.s.isQuery) (hphased : scan.Phased)
    (hlen : scan.length .query + y.length < 65536) (h : scan.run y = some scan') :
    scan'.length .query = scan.length .query + (y.takeWhile notHash).length := by
  induction y generalizing scan with
  | nil =>
      cases h
      rfl
  | cons c rest ih =>
      rw [run, Option.bind_eq_some_iff] at h
      obtain ⟨mid, hmid, hrest⟩ := h
      obtain ⟨hdead, hs', -⟩ := next_cases hmid
      rw [parseUrlChar_query _ _ hs (isUrlByte_of_parseUrlChar _ _ hdead)] at hs'
      rw [List.length_cons] at hlen
      rw [List.takeWhile_cons]
      by_cases hc : isOneOf ['#'] c
      · rw [if_pos hc] at hs'
        have hfragment : mid.s.isFragment := by rw [hs']; rfl
        rw [length_eq_of_fields_eq (query_run hfragment hrest), length_eq_of_fields_eq
          (fields_next hmid (UrlState.field_of_isFragment hfragment).2)]
        simp [notHash, hc]
      · rw [if_neg hc] at hs'
        have hold : scan.oldUf = some .query ↔ (scan.fields .query).isSome := by
          cases hq : scan.s with
          | queryStringStart =>
              obtain ⟨hnone, hne⟩ := hphased.unqueried (.inr (.inr hq))
              simp [hnone, hne]
          | queryString => exact iff_of_true (hphased.query hq).1 (hphased.query hq).2
          | _ => rw [hq] at hs; cases hs
        have hgrow := length_next hmid .query (by rw [hs']; rfl) (by omega) hold
        rw [ih (by rw [hs']; rfl) (hphased.next hmid) (by omega) hrest, hgrow]
        simp [notHash, hc]
        omega

/-- Within the path, the characters up to a separator are added to it. -/
theorem length_run_of_path (hs : scan.s = .path) (hphased : scan.Phased)
    (hlen : scan.length .path + y.length < 65536) (h : scan.run y = some scan') :
    scan'.length .path = scan.length .path + (y.takeWhile isUrlChar).length := by
  induction y generalizing scan with
  | nil =>
      cases h
      rfl
  | cons c rest ih =>
      rw [run, Option.bind_eq_some_iff] at h
      obtain ⟨mid, hmid, hrest⟩ := h
      obtain ⟨hdead, hs', -⟩ := next_cases hmid
      have hc := isUrlByte_of_parseUrlChar _ _ hdead
      rw [hs, parseUrlChar_path c hc] at hs'
      rw [List.length_cons] at hlen
      rw [List.takeWhile_cons]
      by_cases hurl : isUrlChar c
      · obtain ⟨hmark, hhash, -⟩ := isOneOf_of_isUrlChar c hurl
        rw [hmark, hhash] at hs'
        have hgrow := length_next hmid .path (by rw [hs']; rfl) (by omega)
          (iff_of_true (hphased.path hs).1 (hphased.path hs).2)
        rw [ih hs' (hphased.next hmid) (by omega) hrest, hgrow, if_pos hurl, List.length_cons]
        omega
      · have hpast : mid.s.isQuery ∨ mid.s.isFragment := by
          rw [hs']
          have hsep : isOneOf ['?'] c ∨ isOneOf ['#'] c := by
            simpa [isUrlByte, hurl, isOneOf] using hc
          split
          · exact .inl rfl
          · rw [if_pos (hsep.resolve_left ‹_›)]
            exact .inr rfl
        rw [length_eq_of_fields_eq (path_run hpast hrest), length_eq_of_fields_eq
          (fields_next hmid (UrlState.field_of_past hpast)), if_neg hurl]
        rfl

end UrlScan

/-- The path and the query that a parser shows after a request for `url`, both
empty if it rejects the request. -/
def shown (url : Bytes) : Bytes × Bytes :=
  match target url with
  | some (path, query) => (path, query.getD [])
  | none => ([], [])

/-- Behind a fragment a second URL is ignored. -/
theorem target_append_of_hash {t : Bytes × Option Bytes} (h : target w = some t)
    (hhash : ∃ x ∈ w, isOneOf ['#'] x) (hy : ∀ x ∈ y, isUrlByte x) : target (w ++ y) = some t := by
  obtain ⟨t', ht'⟩ := Option.isSome_iff_exists.mp
    (target_append_isSome (Option.isSome_iff_exists.mpr ⟨t, h⟩) hy)
  rw [ht']
  obtain ⟨scan, u, data, hscan, -, hdata, rfl⟩ := target_eq_some_iff.mp h
  obtain ⟨scan', u', data', hscan', -, hdata', rfl⟩ := target_eq_some_iff.mp ht'
  have inv := UrlScan.scanned_of_run hscan
  have hfragment := inv.measured.hash.mpr hhash
  rw [UrlScan.run_append, hscan, Option.bind_some] at hscan'
  rw [UrlScan.path_run (.inr hfragment) hscan', hdata, Option.some.injEq] at hdata'
  subst hdata'
  rw [UrlScan.query_run hfragment hscan', slice_append (inv.placed.le _ _ hdata)]
  cases hquery : scan.fields .query with
  | none => rfl
  | some query =>
      rw [Option.map_some, Option.map_some, slice_append (inv.placed.le _ _ hquery)]

/-- The lengths of what is shown are those that the scan noted. -/
theorem length_shown (h : target w ≠ none) (hscan : (UrlScan.init false).run w = some scan) :
    (shown w).1.length = scan.length .path ∧ (shown w).2.length = scan.length .query := by
  obtain ⟨t, ht⟩ := Option.ne_none_iff_exists'.mp h
  obtain ⟨scan', u, data, hscan', -, hdata, rfl⟩ := target_eq_some_iff.mp ht
  obtain rfl : scan' = scan := Option.some.inj (hscan'.symm.trans hscan)
  have inv := UrlScan.scanned_of_run hscan
  rw [shown, ht]
  refine ⟨?_, ?_⟩
  · rw [UrlScan.length, hdata]
    exact length_slice (inv.placed.le _ _ hdata)
  · cases hquery : scan'.fields .query with
    | none => simp [UrlScan.length, hquery]
    | some query =>
        rw [UrlScan.length, hquery]
        exact length_slice (inv.placed.le _ _ hquery)

/-- What a URL shows is bounded by its characters before the separators. -/
theorem length_shown_le (hscan : (UrlScan.init false).run y = some scan) (hy : y ≠ []) :
    (shown y).1.length ≤ (y.takeWhile isUrlChar).length ∧
      (shown y).2.length < (y.takeWhile notHash).length := by
  have inv := UrlScan.scanned_of_run hscan
  have hpos : 0 < (y.takeWhile notHash).length := by
    cases y with
    | nil => exact absurd rfl hy
    | cons c rest =>
        rw [UrlScan.run, Option.bind_eq_some_iff] at hscan
        obtain ⟨mid, hmid, -⟩ := hscan
        have hc : notHash c := notHash_of_first c (UrlScan.next_cases hmid).1
        rw [List.takeWhile_cons_of_pos hc, List.length_cons]
        exact Nat.succ_pos _
  by_cases htarget : target y = none
  · rw [shown, htarget]
    exact ⟨Nat.zero_le _, hpos⟩
  · obtain ⟨hpath, hquery⟩ := length_shown htarget hscan
    rw [hpath, hquery]
    refine ⟨?_, ?_⟩
    · cases hdata : scan.fields .path with
      | none => simp [UrlScan.length, hdata]
      | some data =>
          rw [UrlScan.length, hdata]
          exact inv.measured.path_le data hdata
    · cases hdata : scan.fields .query with
      | none =>
          rw [UrlScan.length, hdata]
          exact hpos
      | some data =>
          rw [UrlScan.length, hdata]
          exact inv.measured.query_lt data hdata

/-- **A second URL changes what is shown.**  Behind a URL without a fragment, no
URL shows its own path and query. -/
theorem shown_append_ne (h : target w ≠ none) (hhash : ¬∃ x ∈ w, isOneOf ['#'] x)
    (hy : y ≠ []) (hscan : (UrlScan.init false).run y = some scan)
    (hlen : (w ++ y).length < 65536) : shown (w ++ y) ≠ shown y := by
  rw [List.length_append] at hlen
  obtain ⟨t, ht⟩ := Option.ne_none_iff_exists'.mp h
  obtain ⟨first, u, data, hfirst, -, hdata, -⟩ := target_eq_some_iff.mp ht
  have inv := UrlScan.scanned_of_run hfirst
  have hsome := target_append_isSome (Option.isSome_iff_exists.mpr ⟨t, ht⟩) (isUrlByte_of_run hscan)
  obtain ⟨t', ht'⟩ := Option.isSome_iff_exists.mp hsome
  obtain ⟨last, -, -, hlast, -, -, -⟩ := target_eq_some_iff.mp ht'
  obtain ⟨hpath, hquery⟩ := length_shown (Option.ne_none_iff_exists'.mpr ⟨t', ht'⟩) hlast
  obtain ⟨hpath', hquery'⟩ := length_shown_le hscan hy
  rw [UrlScan.run_append, hfirst, Option.bind_some] at hlast
  have hbound : ∀ uf, first.length uf ≤ w.length := by
    intro uf
    cases huf : first.fields uf with
    | none => simp [UrlScan.length, huf]
    | some data =>
        have hle := inv.placed.le _ _ huf
        simp only [UrlScan.length, huf, Option.elim_some]
        omega
  intro heq
  rw [heq] at hpath hquery
  have hfragment : ¬first.s.isFragment := fun hf => hhash (inv.measured.hash.mp hf)
  -- where the first URL stopped decides which component grows beyond the second one's
  rcases UrlState.path_or_query (inv.isTail_of_path (by rw [hdata]; rfl)) hfragment with hs | hs
  · have hgrow := UrlScan.length_run_of_path hs inv.phased
      (by have hle := hbound .path; omega) hlast
    have hpos := inv.measured.path_pos (by omega) data hdata
    have hdataLen : first.length .path = data.len := by rw [UrlScan.length, hdata]; rfl
    omega
  · have hgrow := UrlScan.length_run_of_isQuery hs inv.phased
      (by have hle := hbound .query; omega) hlast
    omega

/-- A path that was found is not empty. -/
theorem shown_path_ne_nil (h : target w ≠ none) (hlen : w.length < 65536) : (shown w).1 ≠ [] := by
  obtain ⟨t, ht⟩ := Option.ne_none_iff_exists'.mp h
  obtain ⟨scan, u, data, hscan, -, hdata, -⟩ := target_eq_some_iff.mp ht
  have hpos := (UrlScan.scanned_of_run hscan).measured.path_pos hlen data hdata
  have hpath := (length_shown h hscan).1
  rw [UrlScan.length, hdata, Option.elim_some] at hpath
  exact List.ne_nil_of_length_pos (by omega)

end Brynet.Http
