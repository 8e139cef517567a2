import LivekitServer.ClientUrl

/-!
# Request headers over libcurl

`CurlTransport::Send` hands every header to libcurl as one line, and libcurl reads the line again:
a line with nothing but blanks after the colon takes the header away, and a semicolon stands for an
empty value. The lines determine the headers, and libcurl sends all of them unless the value of one
consists of blanks only.
-/

namespace LivekitServer.CurlTransport

section Lines

/-- The text of a C string. -/
def cString (text : Bytes) : Bytes := text.takeWhile (· ≠ 0)

def headerLine (name value : Bytes) : Bytes :=
  name ++ (if value = [] then ascii ";" else ascii ": " ++ value)

/-- A header that `Send` takes. -/
def headerAdmitted (name value : Bytes) : Bool :=
  token name && !(value.any fun b => b = 0x0d || b = 0x0a) && value.all (· ≠ 0)

/-- `curl_slist_append`: the longer list, none when it is out of memory. -/
abbrev Append := List Bytes → Bytes → Option (List Bytes)

/-- The loop over the headers. -/
def headerLines (append : Append) : List (Bytes × Bytes) → List Bytes → Outcome (List Bytes)
  | [], lines => .ok lines
  | (name, value) :: rest, lines =>
    if !headerAdmitted name value then raise .invalidArgument (ascii "invalid HTTP header")
    else
      match append lines (cString (headerLine name value)) with
      | none => .error (.standard (ascii "std::bad_alloc"))
      | some next => headerLines append rest next

/-- What libcurl is given. -/
structure Transfer where
  request : HttpRequest
  lines : List Bytes

/-- `Send` up to the transfer, whose result it returns. -/
def send (append : Append) (request : HttpRequest) :
    Program Transfer (fun _ => HttpResponse) Thrown HttpResponse := do
  checkRequest request
  let lines ← headerLines append request.headers []
  Program.perform ⟨request, lines⟩

end Lines

section Libcurl

variable (isBlank : UInt8 → Bool)

def trim (text : Bytes) : Bytes := (text.dropWhile isBlank).rdropWhile isBlank

/-- The header that libcurl sends for a line, with its value up to surrounding blanks. -/
def sentHeader (line : Bytes) : Option (Bytes × Bytes) :=
  match line.dropWhile (· ≠ 0x3a) with
  | _ :: content =>
    if content.all isBlank then none
    else some (line.takeWhile (· ≠ 0x3a), trim isBlank content)
  | [] =>
    match line.dropWhile (· ≠ 0x3b) with
    | [] => none
    | _ :: content =>
      if content.all isBlank then some (line.takeWhile (· ≠ 0x3b), []) else none

end Libcurl

/-- The name and the value that a line was made from. -/
def splitLine (line : Bytes) : Bytes × Bytes :=
  match line.dropWhile (· ≠ 0x3a) with
  | [] => (line.dropLast, [])
  | _ :: content => (line.takeWhile (· ≠ 0x3a), content.drop 1)

section Reading

variable {isBlank : UInt8 → Bool} {name value : Bytes}

theorem headerAdmitted_iff :
    headerAdmitted name value = true ↔
      token name = true ∧ ∀ b ∈ value, b ≠ 0x0d ∧ b ≠ 0x0a ∧ b ≠ 0 := by
  rw [headerAdmitted, Bool.and_eq_true, Bool.and_eq_true, and_assoc]
  apply and_congr_right
  intro _
  simp only [Bool.not_eq_true', List.any_eq_false, List.all_eq_true, Bool.or_eq_true,
    decide_eq_true_eq, not_or]
  constructor
  · rintro ⟨hline, hnul⟩ b hb
    exact ⟨(hline b hb).1, (hline b hb).2, hnul b hb⟩
  · intro h
    exact ⟨fun b hb => ⟨(h b hb).1, (h b hb).2.1⟩, fun b hb => (h b hb).2.2⟩

/-- A token has none of the bytes that end or split a line. -/
theorem token_bytes (h : token name = true) :
    ∀ b ∈ name, b ≠ 0x3a ∧ b ≠ 0x3b ∧ b ≠ 0x0d ∧ b ≠ 0x0a ∧ b ≠ 0 := by
  rw [token, Bool.and_eq_true, List.all_eq_true] at h
  intro b hb
  have hb := h.2 b hb
  refine ⟨?_, ?_, ?_, ?_, ?_⟩
  all_goals
    rintro rfl
    exact absurd hb (by decide)

theorem takeWhile_token {c : UInt8} (rest : Bytes) (h : c ∉ name) :
    (name ++ c :: rest).takeWhile (· ≠ c) = name ∧
      (name ++ c :: rest).dropWhile (· ≠ c) = c :: rest := by
  have hname : ∀ b ∈ name, decide (b ≠ c) = true := by
    intro b hb
    apply decide_eq_true
    rintro rfl
    exact h hb
  rw [List.takeWhile_append_of_pos hname, List.dropWhile_append_of_pos hname]
  simp

/-- The line of an empty value has no colon. -/
theorem dropWhile_semicolon (h : token name = true) :
    (name ++ [0x3b]).dropWhile (· ≠ 0x3a) = [] := by
  rw [List.dropWhile_eq_nil_iff]
  intro b hb
  apply decide_eq_true
  rcases List.mem_append.mp hb with hb | hb
  · exact (token_bytes h b hb).1
  · rw [List.mem_singleton.mp hb]
    decide

theorem headerLine_nil (name : Bytes) : headerLine name [] = name ++ [0x3b] := rfl

theorem headerLine_of_ne (name : Bytes) (h : value ≠ []) :
    headerLine name value = name ++ 0x3a :: (0x20 :: value) := by
  rw [headerLine, if_neg h]
  rfl

theorem colon_notMem (h : token name = true) : (0x3a : UInt8) ∉ name :=
  fun hb => (token_bytes h _ hb).1 rfl

theorem splitLine_headerLine (h : token name = true) :
    splitLine (headerLine name value) = (name, value) := by
  by_cases hvalue : value = []
  · subst hvalue
    rw [splitLine, headerLine_nil, dropWhile_semicolon h, List.dropLast_concat]
  · obtain ⟨htake, hdrop⟩ := takeWhile_token (0x20 :: value) (colon_notMem h)
    rw [splitLine, headerLine_of_ne name hvalue, htake, hdrop]
    rfl

/-- A line takes its header away when the value is made of blanks, but not when it is empty. -/
theorem sentHeader_headerLine (hblank : isBlank 0x20 = true) (h : token name = true) :
    sentHeader isBlank (headerLine name value) =
      if value ≠ [] ∧ value.all isBlank = true then none
      else some (name, trim isBlank value) := by
  by_cases hvalue : value = []
  · subst hvalue
    have hsemicolon : (0x3b : UInt8) ∉ name := fun hb => (token_bytes h _ hb).2.1 rfl
    obtain ⟨htake, hdrop⟩ := takeWhile_token [] hsemicolon
    rw [sentHeader, headerLine_nil, dropWhile_semicolon h]
    dsimp only
    rw [hdrop, htake, if_neg fun h => h.1 rfl]
    rfl
  · obtain ⟨htake, hdrop⟩ := takeWhile_token (0x20 :: value) (colon_notMem h)
    have htrim : trim isBlank (0x20 :: value) = trim isBlank value := by
      rw [trim, List.dropWhile_cons_of_pos hblank, trim]
    rw [sentHeader, headerLine_of_ne name hvalue, hdrop]
    dsimp only
    rw [htake, htrim]
    simp only [List.all_cons, hblank, Bool.true_and, ne_eq, hvalue, not_false_eq_true, true_and]

theorem headerLine_clean (h : headerAdmitted name value = true) :
    ∀ b ∈ headerLine name value, b ≠ 0x0d ∧ b ≠ 0x0a ∧ b ≠ 0 := by
  obtain ⟨htoken, hvalue⟩ := headerAdmitted_iff.mp h
  intro b hb
  rw [headerLine] at hb
  rcases List.mem_append.mp hb with hb | hb
  · exact (token_bytes htoken b hb).2.2
  · by_cases hempty : value = []
    · rw [if_pos hempty] at hb
      rw [List.mem_singleton.mp hb]
      decide
    · rw [if_neg hempty] at hb
      rcases List.mem_append.mp hb with hb | hb
      · have hall : ∀ b ∈ ascii ": ", b ≠ 0x0d ∧ b ≠ 0x0a ∧ b ≠ 0 := by
          simp [ascii]
        exact hall b hb
      · exact hvalue b hb

theorem cString_headerLine (h : headerAdmitted name value = true) :
    cString (headerLine name value) = headerLine name value := by
  rw [cString, List.takeWhile_eq_self_iff]
  intro b hb
  exact decide_eq_true (headerLine_clean h b hb).2.2

end Reading

section Loop

variable {append : Append}

/-- The text of the line of a header. -/
def lineOf (header : Bytes × Bytes) : Bytes := headerLine header.1 header.2

/-- libcurl has the memory for every line. -/
def Allocates (append : Append) (headers : List (Bytes × Bytes)) (lines : List Bytes) : Prop :=
  ∀ front header back, headers = front ++ header :: back →
    append (lines ++ front.map lineOf) (lineOf header) ≠ none

theorem allocates_nil (lines : List Bytes) : Allocates append [] lines := by
  intro front header back hsplit
  exact absurd hsplit.symm (List.append_ne_nil_of_right_ne_nil front (List.cons_ne_nil _ _))

theorem allocates_cons {header : Bytes × Bytes} {rest : List (Bytes × Bytes)}
    {lines : List Bytes} :
    Allocates append (header :: rest) lines ↔
      append lines (lineOf header) ≠ none ∧ Allocates append rest (lines ++ [lineOf header]) := by
  constructor
  · intro h
    constructor
    · have hfirst := h [] header rest rfl
      rwa [List.map_nil, List.append_nil] at hfirst
    · rintro front other back rfl
      have hlater := h (header :: front) other back rfl
      rwa [List.map_cons, ← List.singleton_append, ← List.append_assoc] at hlater
  · rintro ⟨hfirst, hrest⟩ front other back hsplit
    cases front with
    | nil =>
        obtain ⟨rfl, -⟩ := List.cons.inj hsplit
        rwa [List.map_nil, List.append_nil]
    | cons first front =>
        obtain ⟨rfl, hback⟩ := List.cons.inj hsplit
        have hlater := hrest front other back hback
        rwa [List.append_assoc, List.singleton_append, ← List.map_cons] at hlater

theorem headerLines_ok (happend : ∀ lines line next, append lines line = some next →
      next = lines ++ [line]) {headers : List (Bytes × Bytes)} {lines result : List Bytes} :
    headerLines append headers lines = .ok result ↔
      (∀ header ∈ headers, headerAdmitted header.1 header.2 = true) ∧
        Allocates append headers lines ∧ result = lines ++ headers.map lineOf := by
  induction headers generalizing lines with
  | nil =>
      rw [headerLines, List.map_nil, List.append_nil]
      constructor
      · intro h
        exact ⟨nofun, allocates_nil lines, (Except.ok.inj h).symm⟩
      · rintro ⟨-, -, rfl⟩
        rfl
  | cons header rest ih =>
      obtain ⟨name, value⟩ := header
      rw [headerLines, List.forall_mem_cons, allocates_cons]
      by_cases hadmitted : headerAdmitted name value = true
      · have hline : lineOf (name, value) = headerLine name value := rfl
        rw [hadmitted, Bool.not_true, if_neg Bool.false_ne_true, cString_headerLine hadmitted,
          and_iff_right rfl, List.map_cons, hline]
        cases hnext : append lines (headerLine name value) with
        | none =>
            apply iff_of_false
            · exact nofun
            · exact fun h => h.2.1.1 rfl
        | some next =>
            obtain rfl := happend lines _ next hnext
            dsimp only
            rw [ih, List.append_assoc, List.singleton_append,
              and_iff_right (Option.some_ne_none _)]
      · rw [Bool.eq_false_of_not_eq_true hadmitted, Bool.not_false, if_pos rfl]
        apply iff_of_false
        · exact nofun
        · exact fun h => Bool.false_ne_true h.1.1

theorem headerLines_error {headers : List (Bytes × Bytes)} {lines : List Bytes} {e : Thrown}
    (h : headerLines append headers lines = .error e) :
    e = .error ⟨.invalidArgument, ascii "invalid HTTP header", 0, []⟩ ∨
      (e = .standard (ascii "std::bad_alloc") ∧ ∃ lines line, append lines line = none) := by
  induction headers generalizing lines with
  | nil => cases h
  | cons header rest ih =>
      obtain ⟨name, value⟩ := header
      rw [headerLines] at h
      by_cases hadmitted : (!headerAdmitted name value) = true
      · rw [if_pos hadmitted] at h
        exact Or.inl (Except.error.inj h).symm
      · rw [if_neg hadmitted] at h
        cases hnext : append lines (cString (headerLine name value)) with
        | none =>
            rw [hnext] at h
            exact Or.inr ⟨(Except.error.inj h).symm, _, _, hnext⟩
        | some next =>
            rw [hnext] at h
            exact ih h

end Loop

section Sending

variable {append : Append} {isBlank : UInt8 → Bool}

/-- Lines that stand for the headers of a request one by one: none can be cut, each gives back its
header, and libcurl sends every header with its value. -/
structure SendsAll (isBlank : UInt8 → Bool) (request : HttpRequest) (lines : List Bytes) :
    Prop where
  clean : ∀ line ∈ lines, ∀ b ∈ line, b ≠ 0x0d ∧ b ≠ 0x0a ∧ b ≠ 0
  split : lines.map splitLine = request.headers
  sent : lines.filterMap (sentHeader isBlank) =
    request.headers.map fun header => (header.1, trim isBlank header.2)

/-- The request is refused before any transfer, or transferred with lines for all its headers. -/
def HeadersKept (append : Append) (isBlank : UInt8 → Bool) (request : HttpRequest) : Prop :=
  (∃ message, send append request = .done (raise .invalidArgument message)) ∨
    (send append request = .done (.error (.standard (ascii "std::bad_alloc"))) ∧
      ∃ lines line, append lines line = none) ∨
    ∃ lines, send append request = Program.perform ⟨request, lines⟩ ∧
      SendsAll isBlank request lines

/-- The request passes the checks, and libcurl has the memory for its lines. -/
structure Admitted (append : Append) (request : HttpRequest) : Prop where
  check : checkRequest request = .ok ()
  headers : ∀ header ∈ request.headers, headerAdmitted header.1 header.2 = true
  memory : Allocates append request.headers []

/-- No value is made of blanks alone. -/
def NoBlankValue (isBlank : UInt8 → Bool) (request : HttpRequest) : Prop :=
  ∀ header ∈ request.headers, header.2 = [] ∨ ∃ b ∈ header.2, isBlank b = false

theorem send_of_admitted (happend : ∀ lines line next, append lines line = some next →
      next = lines ++ [line]) {request : HttpRequest} (h : Admitted append request) :
    send append request = Program.perform ⟨request, request.headers.map lineOf⟩ := by
  have hlines : headerLines append request.headers [] = .ok (request.headers.map lineOf) :=
    (headerLines_ok happend).mpr ⟨h.headers, h.memory, rfl⟩
  rw [send, h.check, hlines]
  rfl

theorem send_cases (happend : ∀ lines line next, append lines line = some next →
      next = lines ++ [line]) (request : HttpRequest) :
    (∃ message, send append request = .done (raise .invalidArgument message)) ∨
      (send append request = .done (.error (.standard (ascii "std::bad_alloc"))) ∧
        ∃ lines line, append lines line = none) ∨ Admitted append request := by
  cases hcheck : checkRequest request with
  | error e =>
      left
      rw [checkRequest] at hcheck
      split at hcheck
      · rename_i hrefused
        refine ⟨ascii "invalid HTTP request URL, method, timeout or body size", ?_⟩
        rw [send, checkRequest, if_pos hrefused]
        rfl
      · cases hcheck
  | ok _ =>
      cases hlines : headerLines append request.headers [] with
      | error e =>
          have hsend : send append request = .done (.error e) := by
            rw [send, hcheck, hlines]
            rfl
          rcases headerLines_error hlines with rfl | ⟨rfl, hmemory⟩
          · exact Or.inl ⟨_, hsend⟩
          · exact Or.inr (Or.inl ⟨hsend, hmemory⟩)
      | ok lines =>
          obtain ⟨hheaders, hmemory, -⟩ := (headerLines_ok happend).mp hlines
          exact Or.inr (Or.inr ⟨hcheck, hheaders, hmemory⟩)

theorem filterMap_eq_map_iff {α β : Type} {f : α → Option β} {g : α → β} {xs : List α}
    (h : ∀ x ∈ xs, f x = none ∨ f x = some (g x)) :
    xs.filterMap f = xs.map g ↔ ∀ x ∈ xs, f x ≠ none := by
  induction xs with
  | nil => exact iff_of_true rfl nofun
  | cons x xs ih =>
      obtain ⟨hx, hxs⟩ := List.forall_mem_cons.mp h
      rw [List.forall_mem_cons, ← ih hxs, List.map_cons]
      rcases hx with hx | hx
      · rw [List.filterMap_cons_none hx]
        refine iff_of_false (fun heq => ?_) fun hne => hne.1 hx
        -- a dropped element leaves the list too short
        have hlength := congrArg List.length heq
        have hle := List.length_filterMap_le f xs
        rw [List.length_cons, List.length_map] at hlength
        omega
      · rw [List.filterMap_cons_some hx, List.cons_inj_right]
        exact ⟨fun heq => ⟨by rw [hx]; exact Option.some_ne_none _, heq⟩, fun heq => heq.2⟩

/-- What libcurl does with the line of an admitted header. -/
theorem sentHeader_cases (hblank : isBlank 0x20 = true) {header : Bytes × Bytes}
    (h : headerAdmitted header.1 header.2 = true) :
    (sentHeader isBlank (lineOf header) = none ∧ header.2 ≠ [] ∧ header.2.all isBlank = true) ∨
      (sentHeader isBlank (lineOf header) = some (header.1, trim isBlank header.2) ∧
        (header.2 = [] ∨ ∃ b ∈ header.2, isBlank b = false)) := by
  have hread : sentHeader isBlank (lineOf header) = _ :=
    sentHeader_headerLine hblank (headerAdmitted_iff.mp h).1
  by_cases hblanks : header.2 ≠ [] ∧ header.2.all isBlank = true
  · exact Or.inl ⟨hread.trans (if_pos hblanks), hblanks⟩
  · refine Or.inr ⟨hread.trans (if_neg hblanks), ?_⟩
    by_cases hempty : header.2 = []
    · exact Or.inl hempty
    · have hall : ¬header.2.all isBlank = true := fun hall => hblanks ⟨hempty, hall⟩
      rw [List.all_eq_true] at hall
      push Not at hall
      obtain ⟨b, hb, hne⟩ := hall
      exact Or.inr ⟨b, hb, Bool.eq_false_of_not_eq_true hne⟩

theorem sentHeader_ne_none_iff (hblank : isBlank 0x20 = true) {header : Bytes × Bytes}
    (h : headerAdmitted header.1 header.2 = true) :
    sentHeader isBlank (lineOf header) ≠ none ↔
      header.2 = [] ∨ ∃ b ∈ header.2, isBlank b = false := by
  rcases sentHeader_cases hblank h with ⟨hnone, hne, hall⟩ | ⟨hsome, hkept⟩
  · apply iff_of_false (fun hsome => hsome hnone)
    rintro (hempty | ⟨b, hb, hfalse⟩)
    · exact hne hempty
    · have htrue := List.all_eq_true.mp hall b hb
      rw [hfalse] at htrue
      exact Bool.false_ne_true htrue
  · rw [hsome]
    exact iff_of_true (Option.some_ne_none _) hkept

theorem map_splitLine {headers : List (Bytes × Bytes)}
    (h : ∀ header ∈ headers, headerAdmitted header.1 header.2 = true) :
    (headers.map lineOf).map splitLine = headers := by
  have hsplit : ∀ header ∈ headers, splitLine (lineOf header) = header := fun header hm =>
    splitLine_headerLine (headerAdmitted_iff.mp (h header hm)).1
  calc (headers.map lineOf).map splitLine
      = headers.map fun header => splitLine (lineOf header) := List.map_map
    _ = headers.map id := List.map_congr_left hsplit
    _ = headers := List.map_id headers

theorem sendsAll_iff (hblank : isBlank 0x20 = true) {request : HttpRequest}
    (h : ∀ header ∈ request.headers, headerAdmitted header.1 header.2 = true) :
    SendsAll isBlank request (request.headers.map lineOf) ↔ NoBlankValue isBlank request := by
  have hsent : (request.headers.map lineOf).filterMap (sentHeader isBlank) =
      (request.headers.map fun header => (header.1, trim isBlank header.2)) ↔
        NoBlankValue isBlank request := by
    rw [List.filterMap_map, filterMap_eq_map_iff]
    · exact forall₂_congr fun header hm => sentHeader_ne_none_iff hblank (h header hm)
    · intro header hm
      rcases sentHeader_cases hblank (h header hm) with ⟨hnone, -⟩ | ⟨hsome, -⟩
      · exact Or.inl hnone
      · exact Or.inr hsome
  constructor
  · intro hall
    exact hsent.mp hall.sent
  · intro hvalues
    refine ⟨fun line hline => ?_, map_splitLine h, hsent.mpr hvalues⟩
    obtain ⟨header, hm, rfl⟩ := List.mem_map.mp hline
    exact headerLine_clean (h header hm)

/-- A request is refused before any transfer, or libcurl is given one line for each header, in
order, of which none can be cut and from which the header can be read, and sends all of them; unless
a value of an admitted request consists of blanks only. -/
theorem send_headers_iff (happend : ∀ lines line next, append lines line = some next →
      next = lines ++ [line]) (hblank : isBlank 0x20 = true) (request : HttpRequest) :
    HeadersKept append isBlank request ↔
      (Admitted append request → NoBlankValue isBlank request) := by
  constructor
  · intro hkept hadmitted
    have hsend := send_of_admitted happend hadmitted
    rw [← sendsAll_iff hblank hadmitted.headers]
    rcases hkept with ⟨message, hrefused⟩ | ⟨hrefused, -⟩ | ⟨lines, hperform, hall⟩
    · rw [hsend] at hrefused
      cases hrefused
    · rw [hsend] at hrefused
      cases hrefused
    · rw [hsend] at hperform
      cases hperform
      exact hall
  · intro h
    rcases send_cases happend request with hrefused | hmemory | hadmitted
    · exact Or.inl hrefused
    · exact Or.inr (Or.inl hmemory)
    · exact Or.inr (Or.inr ⟨_, send_of_admitted happend hadmitted,
        (sendsAll_iff hblank hadmitted.headers).mpr (h hadmitted)⟩)

/-- libcurl with memory for every line. -/
def plentiful : Append := fun lines line => some (lines ++ [line])

def blank (b : UInt8) : Bool := b = 0x20 || b = 0x09

def headerRequest (headers : List (Bytes × Bytes)) : HttpRequest :=
  ⟨ascii "https://localhost", ascii "POST", headers, [], 1000⟩

theorem send_headers_sample :
    HeadersKept plentiful blank (headerRequest [(ascii "Accept", ascii " a: b "),
      (ascii "X-Empty", [])]) := by
  refine (send_headers_iff (fun lines line next h => (Option.some.inj h).symm) rfl _).mpr
    fun _ => List.forall_mem_cons.mpr ⟨Or.inr ⟨0x61, by decide, rfl⟩, ?_⟩
  exact List.forall_mem_singleton.mpr (Or.inl rfl)

/-- A value of two blanks is accepted, and libcurl drops the header. -/
theorem send_blankValue :
    ¬HeadersKept plentiful blank (headerRequest [(ascii "X-Blank", ascii "  ")]) := by
  have hsend : send plentiful (headerRequest [(ascii "X-Blank", ascii "  ")]) =
      Program.perform ⟨headerRequest [(ascii "X-Blank", ascii "  ")], [ascii "X-Blank:   "]⟩ := rfl
  rintro (⟨message, hrefused⟩ | ⟨hrefused, -⟩ | ⟨lines, hperform, hall⟩)
  · rw [hsend] at hrefused
    cases hrefused
  · rw [hsend] at hrefused
    cases hrefused
  · rw [hsend] at hperform
    cases hperform
    have hsent := hall.sent
    revert hsent
    decide

end Sending

end LivekitServer.CurlTransport
