import Cachic.Lib.Text

/-!
# The access log

`AccessEvent.toLancache` is the line of the `cachelog` format, which dashboards read by
position.  Two of its values come from the client unchecked: the path and the user agent.
`escapeLancache` is what keeps them inside their fields.
-/

namespace Cachic

open CharText

/-- One served request, as far as the lancache format renders it. -/
structure AccessEvent where
  clientIp : String
  service : String
  method : String
  path : String
  status : UInt16
  bytes : UInt64
  cacheStatus : String
  userAgent : Option String
  timestamp : String
  deriving DecidableEq, Repr

/-! ## Escaping -/

/-- The control characters of Unicode, C0 and C1. -/
def isControl (c : Char) : Bool := c.toNat < 0x20 || (0x7F ≤ c.toNat && c.toNat ≤ 0x9F)

def mustEscape (c : Char) : Bool := c == '"' || c == '\\' || isControl c

/-- A hexadecimal digit, in capitals. -/
def hexUpper (n : ℕ) : Char := n.digitChar.toUpper

/-- A byte as `%{byte:02X}` prints it. -/
def percentByte (byte : UInt8) : List Char :=
  ['%', hexUpper (byte.toNat / 16), hexUpper (byte.toNat % 16)]

/-- Make a client-controlled value safe to place inside a quoted field. -/
def escapeLancache (value : String) : String :=
  if value.toList.any mustEscape then
    String.ofList (value.toList.foldl (fun out c =>
      if mustEscape c then
        (String.utf8EncodeChar c).foldl (fun out byte => out ++ percentByte byte) out
      else out ++ [c]) [])
  else value

namespace AccessEvent

/-- monolithic's `cachelog` format, field for field. -/
def toLancache (event : AccessEvent) : String :=
  "[" ++ event.service ++ "] " ++ event.clientIp ++ " / - - - [" ++ event.timestamp ++ "] \"" ++
    event.method ++ " " ++ escapeLancache event.path ++ " HTTP/1.1\" " ++
    String.ofList (decimal event.status.toNat) ++ " " ++
    String.ofList (decimal event.bytes.toNat) ++ " \"-\" \"" ++
    escapeLancache (event.userAgent.getD "-") ++ "\" \"" ++ event.cacheStatus ++ "\""

end AccessEvent

/-- Nothing in the text could end a field or a line. -/
def Plain (text : String) : Prop := ∀ c ∈ text.toList, mustEscape c = false

instance (text : String) : Decidable (Plain text) := List.decidableBAll _ _

namespace Plain

@[simp] theorem append_iff {a b : String} : Plain (a ++ b) ↔ Plain a ∧ Plain b := by
  simp only [Plain, String.toList_append, List.forall_mem_append]

theorem of_digits (n : ℕ) : Plain (String.ofList (decimal n)) := by
  intro c hc
  rw [String.toList_ofList] at hc
  have hrange := toNat_of_isDigit (isDigit_of_mem_decimal hc)
  have hquote : c ≠ '"' := by
    rintro rfl
    exact absurd hrange.1 (by decide)
  have hslash : c ≠ '\\' := by
    rintro rfl
    exact absurd hrange.2 (by decide)
  simp only [mustEscape, isControl, beq_eq_false_iff_ne.mpr hquote, beq_eq_false_iff_ne.mpr hslash,
    Bool.false_or, Bool.or_eq_false_iff, Bool.and_eq_false_iff, decide_eq_false_iff_not]
  omega

theorem not_mem_quote {text : String} (h : Plain text) : '"' ∉ text.toList := fun hmem =>
  absurd (h _ hmem) (by decide)

end Plain

theorem mustEscape_hexUpper : ∀ n < 16, mustEscape (hexUpper n) = false := by decide

theorem mustEscape_percentByte (byte : UInt8) : ∀ c ∈ percentByte byte, mustEscape c = false := by
  have hbyte := byte.toNat_lt
  intro c hc
  simp only [percentByte, List.mem_cons, List.not_mem_nil, or_false] at hc
  rcases hc with rfl | rfl | rfl
  · decide
  · exact mustEscape_hexUpper _ (by omega)
  · exact mustEscape_hexUpper _ (by omega)

/-- What one character becomes. -/
def escapeChar (c : Char) : List Char :=
  if mustEscape c then (String.utf8EncodeChar c).flatMap percentByte else [c]

theorem mustEscape_escapeChar (c : Char) : ∀ d ∈ escapeChar c, mustEscape d = false := by
  intro d hd
  unfold escapeChar at hd
  split at hd
  · obtain ⟨byte, -, hd⟩ := List.mem_flatMap.mp hd
    exact mustEscape_percentByte byte d hd
  · next hc =>
      obtain rfl := List.mem_singleton.mp hd
      exact Bool.eq_false_of_not_eq_true hc

theorem foldl_append_flatMap {α : Type} (f : α → List Char) (xs : List α) (out : List Char) :
    xs.foldl (fun out x => out ++ f x) out = out ++ xs.flatMap f := by
  induction xs generalizing out with
  | nil => simp
  | cons x xs ih => rw [List.foldl_cons, ih, List.flatMap_cons, List.append_assoc]

/-- The value is escaped character by character, on the fast path too. -/
theorem toList_escapeLancache (value : String) :
    (escapeLancache value).toList = value.toList.flatMap escapeChar := by
  unfold escapeLancache
  split
  · have hstep : (fun (out : List Char) c =>
        if mustEscape c then
          (String.utf8EncodeChar c).foldl (fun out byte => out ++ percentByte byte) out
        else out ++ [c]) = fun out c => out ++ escapeChar c := by
      funext out c
      unfold escapeChar
      split
      · rw [foldl_append_flatMap]
      · rfl
    rw [String.toList_ofList, hstep, foldl_append_flatMap, List.nil_append]
  · next hany =>
      have hsame : ∀ c ∈ value.toList, escapeChar c = [c] := by
        intro c hc
        have hc : mustEscape c = false := by
          by_contra hmust
          exact hany (List.any_eq_true.mpr ⟨c, hc, Bool.eq_true_of_not_eq_false hmust⟩)
        rw [escapeChar, hc]
        rfl
      rw [List.flatMap_congr hsame, List.flatMap_singleton']

theorem Plain.of_escaped (value : String) : Plain (escapeLancache value) := by
  intro c hc
  rw [toList_escapeLancache] at hc
  obtain ⟨d, -, hc⟩ := List.mem_flatMap.mp hc
  exact mustEscape_escapeChar d c hc

/-! ## The line -/

namespace AccessEvent

/-- What stands before, between and behind the quotes. -/
def pieces (event : AccessEvent) : List String :=
  ["[" ++ event.service ++ "] " ++ event.clientIp ++ " / - - - [" ++ event.timestamp ++ "] ",
    event.method ++ " " ++ escapeLancache event.path ++ " HTTP/1.1",
    " " ++ String.ofList (decimal event.status.toNat) ++ " " ++
      String.ofList (decimal event.bytes.toNat) ++ " ",
    "-",
    " ",
    escapeLancache (event.userAgent.getD "-"),
    " ",
    event.cacheStatus,
    ""]

theorem toList_toLancache (event : AccessEvent) :
    event.toLancache.toList = ['"'].intercalate (event.pieces.map String.toList) := by
  have hopen : "] \"".toList = "] ".toList ++ ['"'] := by simp
  have hrequest : " HTTP/1.1\" ".toList = " HTTP/1.1".toList ++ '"' :: " ".toList := by simp
  have hreferer : " \"-\" \"".toList =
      " ".toList ++ '"' :: ("-".toList ++ '"' :: (" ".toList ++ ['"'])) := by simp
  have hagent : "\" \"".toList = '"' :: (" ".toList ++ ['"']) := by simp
  have hend : "\"".toList = ['"'] := by simp
  unfold toLancache pieces
  simp only [String.toList_append, hopen, hrequest, hreferer, hagent, hend]
  simp only [List.map_cons, List.map_nil, String.toList_append, List.intercalate_cons_cons,
    List.intercalate_singleton, List.append_assoc, List.cons_append, List.nil_append,
    String.toList_empty]

/-- A plain event's pieces are plain. -/
theorem plain_pieces {event : AccessEvent} (hservice : Plain event.service)
    (hclient : Plain event.clientIp) (htimestamp : Plain event.timestamp)
    (hmethod : Plain event.method) (hcache : Plain event.cacheStatus) :
    ∀ piece ∈ event.pieces, Plain piece := by
  have hbracket : Plain "[" ∧ Plain "] " ∧ Plain " / - - - [" := by decide
  have hfixed : Plain " HTTP/1.1" ∧ Plain " " ∧ Plain "-" ∧ Plain "" := by decide
  have hstatus := Plain.of_digits event.status.toNat
  have hbytes := Plain.of_digits event.bytes.toNat
  have hpath := Plain.of_escaped event.path
  have hagent := Plain.of_escaped (event.userAgent.getD "-")
  simp only [pieces, List.forall_mem_cons, Plain.append_iff]
  simp [*]

/-- **A client cannot forge the structure of the log.**  Whatever the path and the user agent
are, the line of an event whose other texts are plain holds no control character and no
backslash, and its quotes are the eight of the format.  Cut at them it is the nine pieces, and
the escaped path and user agent hold nothing that could end theirs. -/
theorem lancache_line_unforgeable (event : AccessEvent) (hservice : Plain event.service)
    (hclient : Plain event.clientIp) (htimestamp : Plain event.timestamp)
    (hmethod : Plain event.method) (hcache : Plain event.cacheStatus) :
    (∀ c ∈ event.toLancache.toList, isControl c = false ∧ c ≠ '\\') ∧
    event.toLancache.toList.count '"' = 8 ∧
    event.toLancache.toList.splitOn '"' =
      [("[" ++ event.service ++ "] " ++ event.clientIp ++ " / - - - [" ++ event.timestamp ++
          "] ").toList,
        (event.method ++ " " ++ escapeLancache event.path ++ " HTTP/1.1").toList,
        (" " ++ String.ofList (decimal event.status.toNat) ++ " " ++
          String.ofList (decimal event.bytes.toNat) ++ " ").toList,
        ['-'],
        [' '],
        (escapeLancache (event.userAgent.getD "-")).toList,
        [' '],
        event.cacheStatus.toList,
        []] ∧
    Plain (escapeLancache event.path) ∧ Plain (escapeLancache (event.userAgent.getD "-")) := by
  have hplain := plain_pieces hservice hclient htimestamp hmethod hcache
  have hquote : ∀ piece ∈ event.pieces.map String.toList, '"' ∉ piece := by
    intro piece hpiece
    obtain ⟨text, htext, rfl⟩ := List.mem_map.mp hpiece
    exact (hplain text htext).not_mem_quote
  have hne : event.pieces.map String.toList ≠ [] := List.cons_ne_nil _ _
  refine ⟨?_, ?_, ?_, .of_escaped _, .of_escaped _⟩
  · intro c hc
    rw [toList_toLancache] at hc
    rcases mem_intercalate hc with rfl | ⟨piece, hpiece, hc⟩
    · decide
    · obtain ⟨text, htext, rfl⟩ := List.mem_map.mp hpiece
      have hmust := hplain text htext c hc
      simp only [mustEscape, Bool.or_eq_false_iff, beq_eq_false_iff_ne] at hmust
      exact ⟨hmust.2, hmust.1.2⟩
  · have hcount := count_intercalate hne hquote
    rw [← toList_toLancache] at hcount
    simp only [List.length_map, pieces, List.length_cons, List.length_nil] at hcount
    omega
  · rw [toList_toLancache, List.splitOn_intercalate '"' hquote hne]
    simp [pieces]

end AccessEvent

/-- A request whose user agent closes its field, supplies a status of its own and goes on with
a record for another machine. -/
def forging : AccessEvent where
  clientIp := "192.168.1.50"
  service := "steam"
  method := "GET"
  path := "/depot/1/chunk"
  status := 206
  bytes := 1024
  cacheStatus := "MISS"
  userAgent := some "x\" \"HIT\"\n[steam] 10.0.0.99 /"
  timestamp := "02/Sep/2025:08:00:00 +0000"

theorem lancache_line_unforgeable_forging :
    forging.toLancache.toList.count '"' = 8 ∧ Plain (escapeLancache (forging.userAgent.getD "-")) :=
  have h := AccessEvent.lancache_line_unforgeable forging (by decide) (by decide) (by decide)
    (by decide) (by decide)
  ⟨h.2.1, h.2.2.2.2⟩

example : escapeLancache "x\" \u0085\n" = "x%22 %C2%85%0A" := by decide +kernel

end Cachic
