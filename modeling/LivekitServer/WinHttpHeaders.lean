import LivekitServer.Separators
import LivekitServer.WinHttp

/-!
# Request headers over WinHTTP

`WinHttpTransport::Send` joins the headers to one block and checks none of them. The block splits
into the headers again exactly when no name and no value has a line end, no name has a colon with a
space behind it, and the block is short enough for an `int`.
-/

namespace LivekitServer.WinHttpTransport
open Separators

section Blocks

/-- The headers of the lines of a block, whose last line is empty. -/
def readLines : List Bytes → Option (List (Bytes × Bytes))
  | [] => none
  | [last] => if last = [] then some [] else none
  | line :: next :: rest =>
    (cut 0x3a 0x20 line).bind fun header => (readLines (next :: rest)).map (header :: ·)

/-- A block split at every CRLF, and each line at its first colon with a space. -/
def splitBlock (text : Bytes) : Option (List (Bytes × Bytes)) := readLines (pieces 0x0d 0x0a text)

/-- A name and a value that cannot add, split or end a header. -/
structure Unambiguous (name value : Bytes) : Prop where
  nameLine : ¬Has 0x0d 0x0a name
  valueLine : ¬Has 0x0d 0x0a value
  nameColon : ¬Has 0x3a 0x20 name

def headerText (header : Bytes × Bytes) : Bytes := header.1 ++ 0x3a :: 0x20 :: header.2

/-- The last line has to be empty. -/
theorem readLines_singleton {line : Bytes} {headers : List (Bytes × Bytes)} :
    readLines [line] = some headers ↔ [line] = headers.map headerText ++ [[]] := by
  rw [readLines]
  cases headers with
  | nil =>
      by_cases hline : line = []
      · rw [if_pos hline, hline]
        exact iff_of_true rfl rfl
      · rw [if_neg hline]
        exact iff_of_false nofun fun h => hline (List.cons.inj h).1
  | cons header headers =>
      apply iff_of_false
      · intro h
        split at h
        · cases h
        · cases h
      · intro h
        exact absurd (List.cons.inj h).2.symm (List.concat_ne_nil _ _)

theorem readLines_iff {lines : List Bytes} {headers : List (Bytes × Bytes)} :
    readLines lines = some headers ↔ lines = headers.map headerText ++ [[]] ∧
      ∀ header ∈ headers, ¬Has 0x3a 0x20 header.1 := by
  have hcolon : (0x3a : UInt8) ≠ 0x20 := by decide
  induction lines generalizing headers with
  | nil =>
      apply iff_of_false nofun
      intro h
      exact absurd h.1.symm (List.concat_ne_nil _ _)
  | cons line rest ih =>
      cases rest with
      | nil =>
          rw [readLines_singleton]
          constructor
          · intro h
            cases headers with
            | nil => exact ⟨h, nofun⟩
            | cons header headers =>
                exact absurd (List.cons.inj h).2.symm (List.concat_ne_nil _ _)
          · exact And.left
      | cons next rest =>
          rw [readLines]
          constructor
          · intro h
            obtain ⟨header, hcut, h⟩ := Option.bind_eq_some_iff.mp h
            obtain ⟨others, hothers, rfl⟩ := Option.map_eq_some_iff.mp h
            obtain ⟨rfl, hname⟩ := (cut_iff hcolon).mp hcut
            obtain ⟨hlines, hnames⟩ := ih.mp hothers
            refine ⟨?_, List.forall_mem_cons.mpr ⟨hname, hnames⟩⟩
            rw [hlines]
            rfl
          · rintro ⟨hlines, hnames⟩
            cases headers with
            | nil => exact absurd (List.cons.inj hlines).2 (List.cons_ne_nil _ _)
            | cons header headers =>
                obtain ⟨hname, hnames⟩ := List.forall_mem_cons.mp hnames
                obtain ⟨rfl, hrest⟩ := List.cons.inj hlines
                have hothers := ih.mpr ⟨hrest, hnames⟩
                rw [headerText, cut_append hcolon hname, hothers]
                rfl

theorem has_headerText {name value : Bytes} :
    Has 0x0d 0x0a (headerText (name, value)) ↔ Has 0x0d 0x0a name ∨ Has 0x0d 0x0a value := by
  rw [headerText, has_append_cons (by decide) (by decide)]
  apply or_congr_right
  -- the blank is the first byte of what follows the colon
  change Has 0x0d 0x0a ([] ++ 0x20 :: value) ↔ Has 0x0d 0x0a value
  rw [has_append_cons (by decide) (by decide)]
  exact or_iff_right not_has_nil

/-- A block splits into the headers when it was made from them and they are unambiguous. -/
theorem splitBlock_iff {text : Bytes} {headers : List (Bytes × Bytes)} :
    splitBlock text = some headers ↔ text = narrowHeaders headers ∧
      ∀ header ∈ headers, Unambiguous header.1 header.2 := by
  have hcrlf : (0x0d : UInt8) ≠ 0x0a := by decide
  have hblock : ((headers.map headerText).flatMap fun line => line ++ [0x0d, 0x0a]) =
      narrowHeaders headers := by
    rw [List.flatMap_map, narrowHeaders]
    apply List.flatMap_congr
    intro header _
    simp [headerText, ascii]
  rw [splitBlock, readLines_iff, lines_iff hcrlf, hblock, and_assoc]
  apply and_congr_right
  intro _
  rw [List.forall_mem_map]
  constructor
  · rintro ⟨hlines, hnames⟩ header hm
    have hline := hlines header hm
    rw [has_headerText, not_or] at hline
    exact ⟨hline.1, hline.2, hnames header hm⟩
  · intro h
    refine ⟨fun header hm => ?_, fun header hm => (h header hm).nameColon⟩
    rw [has_headerText, not_or]
    exact ⟨(h header hm).nameLine, (h header hm).valueLine⟩

end Blocks

section Conversion
open Program

/-- The UTF-8 text of a wide string. -/
def narrow : Wide → Bytes
  | [] => []
  | [unit] => Utf8.encode unit.toNat
  | high :: low :: rest =>
    if 0xd800 ≤ high ∧ high < 0xdc00 ∧ 0xdc00 ≤ low ∧ low < 0xe000 then
      Utf8.encode (0x10000 + (high.toNat - 0xd800) * 0x400 + (low.toNat - 0xdc00)) ++ narrow rest
    else Utf8.encode high.toNat ++ narrow (low :: rest)

/-- `MultiByteToWideChar` returns an `int` and, where it succeeds, writes so many units: those of the
given number of bytes, or of a C string and its NUL when that number is negative. -/
structure Converts (outside : ∀ call : WinCall, Except Thrown call.Reply) : Prop where
  isInt : ∀ text length (count : ℤ), outside (.wideLength text length) = .ok count → count < 2 ^ 31
  units : ∀ text length (count : ℤ) (written : Wide), 0 < count →
    outside (.wideLength text length) = .ok count →
    outside (.widen text length count) = .ok written → written.length = count
  bytes : ∀ text length (count : ℤ) (written : Wide), 0 < count → 0 ≤ length →
    outside (.wideLength text length) = .ok count →
    outside (.widen text length count) = .ok written →
    narrow written = text.take length.toNat
  cString : ∀ text length (count : ℤ) (written : Wide), 0 < count → length < 0 →
    outside (.wideLength text length) = .ok count →
    outside (.widen text length count) = .ok written → ∃ front, narrow written = front ++ [0]

/-- The header block that WinHTTP is given. -/
def passedBlock (sending : Sending) : Bytes :=
  narrow (sending.headers.take sending.headersLength)

variable {outside : ∀ call : WinCall, Except Thrown call.Reply}

/-- A text is converted as it is when its length fits, and otherwise is cut or ends in a NUL. -/
theorem narrow_utf8ToWide (hconverts : Converts outside) {value : Bytes} {log : List WinCall}
    {wide : Wide} (h : (utf8ToWide value).run outside = (log, .ok wide)) :
    wide.length < 2 ^ 31 ∧ (value.length < 2 ^ 31 ∧ narrow wide = value ∨
      2 ^ 31 ≤ value.length ∧
        ((narrow wide).length < value.length ∨ ∃ front, narrow wide = front ++ [0])) := by
  rcases utf8ToWide_ok h with ⟨rfl, -, rfl⟩ | ⟨hvalue, length, written, hpositive, hlength,
    hwritten, rfl, -⟩
  · exact ⟨by norm_num, Or.inl ⟨by norm_num, rfl⟩⟩
  · have hint := hconverts.isInt _ _ _ hlength
    have hunits := hconverts.units _ _ _ _ hpositive hlength hwritten
    have hfill : fill length written = written := by
      rw [fill, ← hunits, Int.toNat_natCast, List.take_left]
    rw [hfill]
    refine ⟨by omega, ?_⟩
    by_cases hfits : value.length < 2 ^ 31
    · left
      have hwrap := (wrapInt32_natCast_iff value.length).mpr hfits
      have hbytes := hconverts.bytes _ _ _ _ hpositive (by rw [hwrap]; omega) hlength hwritten
      rw [hwrap, Int.toNat_natCast, List.take_length] at hbytes
      exact ⟨hfits, hbytes⟩
    · right
      refine ⟨not_lt.mp hfits, ?_⟩
      by_cases hsign : 0 ≤ wrapInt32 value.length
      · left
        rw [hconverts.bytes _ _ _ _ hpositive hsign hlength hwritten, List.length_take]
        unfold wrapInt32
        omega
      · exact Or.inr (hconverts.cString _ _ _ _ hpositive (not_le.mp hsign) hlength hwritten)

theorem getLast?_narrowHeaders (headers : List (Bytes × Bytes)) :
    (narrowHeaders headers).getLast? ≠ some 0 := by
  induction headers using List.reverseRecOn with
  | nil => exact nofun
  | append_singleton headers header ih =>
      have hlast : (narrowHeaders (headers ++ [header])).getLast? = some 0x0a := by
        rw [narrowHeaders, List.flatMap_append, List.flatMap_singleton, ← List.append_assoc,
          List.getLast?_append]
        rfl
      rw [hlast]
      decide

/-- The block that is passed on is the block of the headers when its length fits. -/
theorem passedBlock_eq_iff (hconverts : Converts outside) {request : HttpRequest}
    {log : List WinCall} {sending : Sending}
    (h : (prepare request).run outside = (log, .ok sending)) :
    passedBlock sending = narrowHeaders request.headers ↔
      (narrowHeaders request.headers).length < 2 ^ 31 := by
  obtain ⟨_, _, _, _, _, _, _, opened, headersLog, headers, -, -, -, hheaders, -, rfl⟩ :=
    prepare_ok h
  obtain ⟨hlength, hcases⟩ := narrow_utf8ToWide hconverts hheaders
  have hpassed : passedBlock ⟨opened, headers, wrapDword headers.length,
      if request.body = [] then none else some request.body, wrapDword request.body.length,
      wrapDword request.body.length⟩ = narrow headers := by
    rw [passedBlock, (wrapDword_iff _).mpr (by omega), List.take_length]
  rw [hpassed]
  rcases hcases with ⟨hfits, heq⟩ | ⟨hlong, hshort | ⟨front, hfront⟩⟩
  · exact iff_of_true heq hfits
  · refine iff_of_false (fun heq => ?_) hlong.not_gt
    rw [heq] at hshort
    exact lt_irrefl _ hshort
  · refine iff_of_false (fun heq => ?_) hlong.not_gt
    apply getLast?_narrowHeaders request.headers
    rw [← heq, hfront, List.getLast?_append]
    rfl

end Conversion

section Calls
open Program ClientContext

theorem mem_of_has {a b : UInt8} {text : Bytes} (h : Has a b text) : a ∈ text ∧ b ∈ text :=
  ⟨h.subset List.mem_cons_self, h.subset (List.mem_cons_of_mem a List.mem_cons_self)⟩

theorem mem_addGrouping {sep b : UInt8} {fuel : ℕ} {sizes : List ℤ} {digits : Bytes}
    (h : b ∈ Locale.addGrouping sep fuel sizes digits) : b ∈ digits ∨ b = sep := by
  induction fuel generalizing sizes digits with
  | zero => exact Or.inl h
  | succ fuel ih =>
      cases sizes with
      | nil => exact Or.inl h
      | cons size sizes =>
          rw [Locale.addGrouping] at h
          split at h
          · rcases List.mem_append.mp h with h | h
            · rcases ih h with h | h
              · exact Or.inl (List.mem_of_mem_take h)
              · exact Or.inr h
            · rcases List.mem_cons.mp h with h | h
              · exact Or.inr h
              · exact Or.inl (List.mem_of_mem_drop h)
          · exact Or.inl h

/-- A line end in a request id comes from the separator of the locale. -/
theorem mem_requestId {loc : Locale} {bytes : Bytes} {b : UInt8} (h : b ∈ requestId loc bytes)
    (hb : b = 0x0d ∨ b = 0x0a) : b = loc.thousandsSep := by
  obtain ⟨⟨c, index⟩, -, hmem⟩ := List.mem_flatMap.mp h
  have hhex : ∀ c : UInt8, (Decimal.hex c.toNat).all (fun d => d != 0x0d && d != 0x0a) = true :=
    forall_byte (by decide +kernel)
  rcases List.mem_append.mp hmem with hmem | hmem
  · split at hmem
    · obtain rfl := List.mem_singleton.mp hmem
      rcases hb with hb | hb
      · cases hb
      · cases hb
    · cases hmem
  · rcases List.mem_append.mp hmem with hmem | hmem
    · obtain rfl := List.eq_of_mem_replicate hmem
      rcases hb with hb | hb
      · cases hb
      · cases hb
    · rcases mem_addGrouping hmem with hmem | hmem
      · have hd := List.all_eq_true.mp (hhex c) b hmem
        rcases hb with rfl | rfl
        · cases hd
        · cases hd
      · exact hmem

theorem requestId_noLine (loc : Locale) (bytes : Bytes) :
    ¬Has 0x0d 0x0a (requestId loc bytes) := by
  intro h
  have hcr := mem_requestId (mem_of_has h).1 (Or.inl rfl)
  have hlf := mem_requestId (mem_of_has h).2 (Or.inr rfl)
  exact absurd (hcr.trans hlf.symm) (by decide)

/-- Of the headers of a call only the token can be ambiguous. -/
theorem unambiguous_callHeaders (token : Bytes) (loc : Locale) (bytes : Bytes) :
    (∀ header ∈ callHeaders token (requestId loc bytes), Unambiguous header.1 header.2) ↔
      ¬Has 0x0d 0x0a token := by
  have hbearer : Has 0x0d 0x0a (ascii "Bearer " ++ token) ↔ Has 0x0d 0x0a token := by
    have hspace : ascii "Bearer " ++ token = ascii "Bearer" ++ 0x20 :: token := rfl
    rw [hspace, has_append_cons (by decide) (by decide)]
    exact or_iff_right (by decide)
  constructor
  · intro h htoken
    have hheader := h (ascii "Authorization", ascii "Bearer " ++ token) (by simp [callHeaders])
    exact hheader.valueLine (hbearer.mpr htoken)
  · intro h
    simp only [callHeaders, List.forall_mem_cons, List.not_mem_nil, false_implies, implies_true,
      and_true]
    exact ⟨⟨by decide, by decide, by decide⟩, ⟨by decide, by decide, by decide⟩,
      ⟨by decide, fun htoken => h (hbearer.mp htoken), by decide⟩,
      ⟨by decide, requestId_noLine loc bytes, by decide⟩, ⟨by decide, by decide, by decide⟩⟩

variable {outside : ∀ call : WinCall, Except Thrown call.Reply}

/-- The block that is passed on splits into the headers of the request exactly when it is short
enough and they are unambiguous; for a request of a call that is when the token has no line end. -/
theorem splitBlock_passed_iff (hconverts : Converts outside) {request : HttpRequest}
    {log : List WinCall} {sending : Sending}
    (h : (prepare request).run outside = (log, .ok sending)) :
    (splitBlock (passedBlock sending) = some request.headers ↔
      (narrowHeaders request.headers).length < 2 ^ 31 ∧
        ∀ header ∈ request.headers, Unambiguous header.1 header.2) ∧
    ∀ {τ : Type} (surroundings : Surroundings) (context : ClientContext τ)
      (service method : String) (serialized : Option Bytes) (grant : RequestGrant) (token : Bytes),
      callRequest surroundings context service method serialized grant = .ok request →
      tokenFor surroundings context grant = .ok token →
      (splitBlock (passedBlock sending) = some request.headers ↔
        (narrowHeaders request.headers).length < 2 ^ 31 ∧ ¬Has 0x0d 0x0a token) := by
  have hsplit : splitBlock (passedBlock sending) = some request.headers ↔
      (narrowHeaders request.headers).length < 2 ^ 31 ∧
        ∀ header ∈ request.headers, Unambiguous header.1 header.2 := by
    rw [splitBlock_iff, passedBlock_eq_iff hconverts h]
  refine ⟨hsplit, fun surroundings context service method serialized grant token hcall htoken => ?_⟩
  obtain ⟨_, random, body, htoken', -, -, rfl⟩ := callRequest_ok.mp hcall
  obtain rfl := Except.ok.inj (htoken.symm.trans htoken')
  rw [hsplit]
  exact and_congr_right fun _ => unambiguous_callHeaders _ _ _

theorem narrow_ascii {text : Bytes} (h : ∀ b ∈ text, b < 0x80) :
    narrow (text.map UInt8.toUInt16) = text := by
  have hencode : ∀ b : UInt8, b < 0x80 → Utf8.encode b.toUInt16.toNat = [b] :=
    forall_byte (by decide +kernel)
  have hlow : ∀ b : UInt8, ¬(0xd800 ≤ b.toUInt16) := forall_byte (by decide +kernel)
  induction text with
  | nil => rfl
  | cons b text ih =>
      obtain ⟨hb, htext⟩ := List.forall_mem_cons.mp h
      cases text with
      | nil => exact hencode b hb
      | cons c text =>
          rw [List.map_cons, List.map_cons, narrow, if_neg fun hs => hlow b hs.1, hencode b hb,
            ← List.map_cons, ih htext]
          rfl

/-- A count that is given is the length of a converted ASCII text. -/
theorem localWindows_count {text : Bytes} {length count : ℤ} (hpositive : 0 < count)
    (h : localWindows (.wideLength text length) = .ok count) :
    count = (converted text length).length ∧ count < 2 ^ 31 ∧
      ∀ b ∈ converted text length, b < 0x80 := by
  have heq := Except.ok.inj h
  change (if (converted text length).length < 2 ^ 31 ∧ (converted text length).all (· < 0x80) then
    ((converted text length).length : ℤ) else 0) = count at heq
  split_ifs at heq with hfits
  · refine ⟨heq.symm, ?_, ?_⟩
    · omega
    · intro b hb
      exact of_decide_eq_true (List.all_eq_true.mp hfits.2 b hb)
  · omega

theorem converts_localWindows : Converts localWindows := by
  constructor
  · intro text length count h
    by_cases hpositive : 0 < count
    · exact (localWindows_count hpositive h).2.1
    · omega
  · intro text length count written hpositive h hw
    obtain rfl := Except.ok.inj hw
    rw [(localWindows_count hpositive h).1]
    exact congrArg _ (List.length_map _)
  · intro text length count written hpositive hsign h hw
    obtain rfl := Except.ok.inj hw
    have hnarrow := narrow_ascii (localWindows_count hpositive h).2.2
    rw [hnarrow, converted, if_pos hsign]
  · intro text length count written hpositive hsign h hw
    obtain rfl := Except.ok.inj hw
    have hnarrow := narrow_ascii (localWindows_count hpositive h).2.2
    rw [hnarrow, converted, if_neg hsign.not_ge]
    exact ⟨_, rfl⟩

theorem splitBlock_localRequest :
    splitBlock (passedBlock bodySending) =
      some [(ascii "A", ascii "b"), (ascii "C", ascii "d e")] := by
  refine (splitBlock_passed_iff converts_localWindows run_bodyRequest).1.mpr ⟨by decide, ?_⟩
  exact List.forall_mem_cons.mpr ⟨⟨by decide, by decide, by decide⟩,
    List.forall_mem_singleton.mpr ⟨by decide, by decide, by decide⟩⟩

/-- A context whose access token has a line end and another header in it. -/
def injectingContext : ClientContext Unit :=
  ⟨ascii "http://localhost", [], [], ascii "t\r\nX-Admin: 1", 10000, ()⟩

def injectedRequest : HttpRequest :=
  ⟨callUrl injectingContext "Egress" "ListEgress", ascii "POST",
    callHeaders (ascii "t\r\nX-Admin: 1") (requestId Locale.classic (List.replicate 16 0)), [],
    10000⟩

theorem splitBlock_injectedRequest :
    callRequest sampleSurroundings injectingContext "Egress" "ListEgress" (some [])
        ⟨none, none, none⟩ = .ok injectedRequest ∧
      ∃ sending, (prepare injectedRequest).result localWindows = .ok sending ∧
        splitBlock (passedBlock sending) ≠ some injectedRequest.headers ∧
        (splitBlock (passedBlock sending)).any (·.contains (ascii "X-Admin", ascii "1")) := by
  refine ⟨by decide +kernel, ⟨2, (narrowHeaders injectedRequest.headers).map UInt8.toUInt16,
    (narrowHeaders injectedRequest.headers).length, none, 0, 0⟩, by decide +kernel,
    by decide +kernel, by decide +kernel⟩

end Calls

end LivekitServer.WinHttpTransport
