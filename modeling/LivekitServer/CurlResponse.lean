import LivekitServer.Error
import Mathlib.Algebra.Group.Nat.Defs
import Mathlib.Data.List.DropRight

/-!
# Response headers over libcurl

libcurl calls `Header` with one line at a time, for every response of a transfer. A status line
resets the headers and then goes on to the split at the colon like any other line. So the headers
that remain are those of the last response, unless its status line has a colon itself.
-/

namespace LivekitServer.CurlTransport

/-- A buffer of `count` elements of `size` bytes. -/
structure Delivery where
  data : Bytes
  size : ℕ
  count : ℕ
  whole : size * count = data.length
  inRange : data.length < 2 ^ 64

structure ResponseState where
  body : Bytes
  headers : List (Bytes × Bytes)
  failure : Option Thrown

section Callbacks

/-- `size && count > max / size`. -/
def overflows (size count : ℕ) : Bool := size ≠ 0 && count > (2 ^ 64 - 1) / size

/-- The callback for a piece of the body. A fault is what its allocation throws. -/
def body (fault : Option Thrown) (state : ResponseState) (delivery : Delivery) :
    ResponseState × ℕ :=
  if overflows delivery.size delivery.count then (state, 0)
  else
    match fault with
    | none => ({ state with body := state.body ++ delivery.data }, delivery.size * delivery.count)
    | some e => ({ state with failure := some e }, 0)

def findFirstNotOf (set text : Bytes) : Option ℕ := text.findIdx? fun b => !set.contains b

def findLastNotOf (set text : Bytes) : Option ℕ :=
  (text.reverse.findIdx? fun b => !set.contains b).map (text.length - 1 - ·)

/-- The value behind the colon without blanks before it and blanks and line ends after it. -/
def trimmed (value : Bytes) : Bytes :=
  let value :=
    match findFirstNotOf (ascii " \t") value with
    | none => []
    | some start => value.drop start
  match findLastNotOf (ascii " \t\r\n") value with
  | none => []
  | some last => value.take (last + 1)

/-- The split at the colon. -/
def splitHeader (line : Bytes) : Option (Bytes × Bytes) :=
  match line.find 0x3a 0 with
  | none => none
  | some colon => some (line.take colon, trimmed (line.drop (colon + 1)))

/-- The callback for a header line. A fault is what the allocation of the entry throws. -/
def header (fault : Option Thrown) (state : ResponseState) (delivery : Delivery) :
    ResponseState × ℕ :=
  if overflows delivery.size delivery.count then (state, 0)
  else
    let headers := if (ascii "HTTP/").isPrefixOf delivery.data then [] else state.headers
    match splitHeader delivery.data with
    | none => ({ state with headers := headers }, delivery.size * delivery.count)
    | some entry =>
      match fault with
      | none =>
        ({ state with headers := headers ++ [entry] }, delivery.size * delivery.count)
      | some e => ({ state with headers := headers, failure := some e }, 0)

/-- A call of one of the two callbacks. -/
inductive Event
  | header (delivery : Delivery)
  | body (delivery : Delivery)

def Event.delivery : Event → Delivery
  | .header delivery => delivery
  | .body delivery => delivery

def step (state : ResponseState) : Event → ResponseState × ℕ
  | .header delivery => header none state delivery
  | .body delivery => body none state delivery

/-- The calls of one transfer, with the state that they leave and the lengths they return. -/
def run (state : ResponseState) : List Event → ResponseState × List ℕ
  | [] => (state, [])
  | event :: events =>
    let next := step state event
    let rest := run next.1 events
    (rest.1, next.2 :: rest.2)

end Callbacks

section Trimming

theorem drop_findFirstNotOf (set text : Bytes) :
    (match findFirstNotOf set text with
      | none => []
      | some start => text.drop start) = text.dropWhile set.contains := by
  induction text with
  | nil => rfl
  | cons b text ih =>
      rw [findFirstNotOf, List.findIdx?_cons]
      cases hb : set.contains b with
      | true =>
          rw [List.dropWhile_cons_of_pos hb, ← ih, findFirstNotOf]
          cases List.findIdx? (fun b => !set.contains b) text with
          | none => rfl
          | some start => rfl
      | false =>
          rw [List.dropWhile_cons_of_neg (Bool.eq_false_iff.mp hb)]
          rfl

theorem findLastNotOf_concat (set text : Bytes) (b : UInt8) :
    findLastNotOf set (text ++ [b]) =
      if set.contains b then findLastNotOf set text else some text.length := by
  rw [findLastNotOf, findLastNotOf, List.reverse_append, List.reverse_singleton,
    List.singleton_append, List.findIdx?_cons, List.length_append, List.length_singleton]
  cases set.contains b with
  | true =>
      simp only [Bool.not_true, Bool.false_eq_true, if_false, if_true, Option.map_map]
      congr 1
      funext i
      change text.length + 1 - 1 - (i + 1) = _
      omega
  | false => rfl

theorem findLastNotOf_lt {set text : Bytes} {last : ℕ} (h : findLastNotOf set text = some last) :
    last < text.length := by
  obtain ⟨i, hi, rfl⟩ := Option.map_eq_some_iff.mp h
  have hlt : i < text.reverse.length := (List.findIdx?_eq_some_iff_getElem.mp hi).1
  rw [List.length_reverse] at hlt
  omega

theorem take_findLastNotOf (set text : Bytes) :
    (match findLastNotOf set text with
      | none => []
      | some last => text.take (last + 1)) = text.rdropWhile set.contains := by
  induction text using List.reverseRecOn with
  | nil => rfl
  | append_singleton text b ih =>
      rw [findLastNotOf_concat]
      cases hb : set.contains b with
      | true =>
          rw [List.rdropWhile_concat_pos _ _ _ hb, ← ih, if_pos rfl]
          cases hlast : findLastNotOf set text with
          | none => rfl
          | some last => exact List.take_append_of_le_length (findLastNotOf_lt hlast)
      | false =>
          rw [List.rdropWhile_concat_neg _ _ _ (Bool.eq_false_iff.mp hb),
            if_neg Bool.false_ne_true]
          apply List.take_of_length_le
          simp

theorem trimmed_eq (value : Bytes) :
    trimmed value = (value.dropWhile (ascii " \t").contains).rdropWhile
      (ascii " \t\r\n").contains := by
  rw [trimmed, drop_findFirstNotOf, take_findLastNotOf]

/-- A header line: a name without a colon, the colon, and the value between blanks, with the line
end behind it. -/
structure IsField (line : Bytes) (entry : Bytes × Bytes) : Prop where
  spelled : ∃ leading trailing, line = entry.1 ++ 0x3a :: (leading ++ (entry.2 ++ trailing)) ∧
    (∀ b ∈ leading, b ∈ ascii " \t") ∧ ∀ b ∈ trailing, b ∈ ascii " \t\r\n"
  name : 0x3a ∉ entry.1
  first : ∀ b, entry.2.head? = some b → b ∉ ascii " \t"
  last : ∀ b, entry.2.getLast? = some b → b ∉ ascii " \t\r\n"

theorem contains_iff {set : Bytes} {b : UInt8} : set.contains b = true ↔ b ∈ set :=
  List.contains_iff_mem

theorem rdropWhile_append_of_pos {α : Type} {p : α → Bool} {front back : List α}
    (h : ∀ x ∈ back, p x = true) : (front ++ back).rdropWhile p = front.rdropWhile p := by
  rw [List.rdropWhile, List.reverse_append, List.dropWhile_append_of_pos, List.rdropWhile]
  exact fun x hx => h x (List.mem_reverse.mp hx)

/-- Trimming finds the value between the blanks. -/
theorem trimmed_spelled {leading value trailing : Bytes} (hleading : ∀ b ∈ leading, b ∈ ascii " \t")
    (htrailing : ∀ b ∈ trailing, b ∈ ascii " \t\r\n")
    (hfirst : ∀ b, value.head? = some b → b ∉ ascii " \t")
    (hlast : ∀ b, value.getLast? = some b → b ∉ ascii " \t\r\n") :
    trimmed (leading ++ (value ++ trailing)) = value := by
  rw [trimmed_eq, List.dropWhile_append_of_pos fun b hb => contains_iff.mpr (hleading b hb)]
  cases value with
  | nil =>
      rw [List.nil_append, List.rdropWhile_eq_nil_iff]
      intro b hb
      exact contains_iff.mpr (htrailing b ((List.dropWhile_sublist _).subset hb))
  | cons b value =>
      rw [List.cons_append, List.dropWhile_cons_of_neg fun h =>
        hfirst b rfl (contains_iff.mp h), ← List.cons_append,
        rdropWhile_append_of_pos fun b hb => contains_iff.mpr (htrailing b hb),
        List.rdropWhile_eq_self_iff]
      intro hne h
      exact hlast _ (List.getLast?_eq_some_getLast hne) (contains_iff.mp h)

/-- What is trimmed away, and where trimming stops. -/
theorem exists_trimmed (text : Bytes) :
    ∃ leading trailing, text = leading ++ (trimmed text ++ trailing) ∧
      (∀ b ∈ leading, b ∈ ascii " \t") ∧ (∀ b ∈ trailing, b ∈ ascii " \t\r\n") ∧
      (∀ b, (trimmed text).head? = some b → b ∉ ascii " \t") ∧
      ∀ b, (trimmed text).getLast? = some b → b ∉ ascii " \t\r\n" := by
  rw [trimmed_eq]
  refine ⟨text.takeWhile (ascii " \t").contains,
    (text.dropWhile (ascii " \t").contains).rtakeWhile (ascii " \t\r\n").contains, ?_,
    fun b hb => contains_iff.mp (List.mem_takeWhile_imp hb),
    fun b hb => contains_iff.mp (List.mem_rtakeWhile_imp hb), fun b hb hmem => ?_,
    fun b hb hmem => ?_⟩
  · rw [List.rdropWhile_append_rtakeWhile, List.takeWhile_append_dropWhile]
  · have hhead : (text.dropWhile (ascii " \t").contains).head? = some b := by
      obtain ⟨rest, hrest⟩ := List.rdropWhile_prefix (ascii " \t\r\n").contains
        (text.dropWhile (ascii " \t").contains)
      rw [← hrest, List.head?_append, hb]
      rfl
    have hnot := List.head?_dropWhile_not (ascii " \t").contains text
    rw [hhead] at hnot
    have hfalse : (ascii " \t").contains b = false := hnot
    rw [contains_iff.mpr hmem] at hfalse
    cases hfalse
  · have hne := List.ne_nil_of_mem (List.mem_of_getLast? hb)
    rw [List.getLast?_eq_some_getLast hne] at hb
    apply List.rdropWhile_last_not _ _ hne
    rw [Option.some.inj hb]
    exact contains_iff.mpr hmem

theorem splitHeader_spelled {name : Bytes} (h : 0x3a ∉ name) (rest : Bytes) :
    splitHeader (name ++ 0x3a :: rest) = some (name, trimmed rest) := by
  have hfind : (name ++ 0x3a :: rest).find 0x3a 0 = some name.length := by
    have hcolon := Bytes.find_append [] h rest
    simpa using hcolon
  have hdrop : (name ++ 0x3a :: rest).drop (name.length + 1) = rest := by
    rw [← List.drop_drop, List.drop_left]
    rfl
  rw [splitHeader, hfind]
  dsimp only
  rw [List.take_left, hdrop]

theorem splitHeader_none {line : Bytes} (h : 0x3a ∉ line) : splitHeader line = none := by
  rw [splitHeader, Bytes.find_none (by rwa [List.drop_zero])]

/-- Every line with a colon is a field, and the callback finds its name and its value. -/
theorem isField_iff {line : Bytes} {entry : Bytes × Bytes} :
    IsField line entry ↔ splitHeader line = some entry := by
  constructor
  · rintro ⟨⟨leading, trailing, rfl, hleading, htrailing⟩, hname, hfirst, hlast⟩
    rw [splitHeader_spelled hname, trimmed_spelled hleading htrailing hfirst hlast]
  · intro h
    rcases Bytes.splits_at 0x3a line with hnone | ⟨name, rest, hname, rfl⟩
    · rw [splitHeader_none hnone] at h
      cases h
    · rw [splitHeader_spelled hname] at h
      obtain rfl := Option.some.inj h
      obtain ⟨leading, trailing, hrest, hleading, htrailing, hfirst, hlast⟩ := exists_trimmed rest
      refine ⟨⟨leading, trailing, ?_, hleading, htrailing⟩, hname, hfirst, hlast⟩
      rw [← hrest]

end Trimming

section Transfers

/-- The entries of the field lines among some events. Lines without a colon, such as the blank one,
have none. -/
inductive Fields : List Event → List (Bytes × Bytes) → Prop
  | nil : Fields [] []
  | body {events entries} (delivery : Delivery) :
      Fields events entries → Fields (.body delivery :: events) entries
  | blank {events entries delivery} :
      0x3a ∉ delivery.data → Fields events entries → Fields (.header delivery :: events) entries
  | field {events entries entry delivery} : IsField delivery.data entry → Fields events entries →
      Fields (.header delivery :: events) (entry :: entries)

/-- A line that resets the headers. -/
def IsStatusLine (line : Bytes) : Prop := ascii "HTTP/" <+: line

def entriesOf : Event → List (Bytes × Bytes)
  | .header delivery => (splitHeader delivery.data).toList
  | .body _ => []

theorem fields_iff {events : List Event} {entries : List (Bytes × Bytes)} :
    Fields events entries ↔ entries = events.flatMap entriesOf := by
  constructor
  · intro h
    induction h with
    | nil => rfl
    | body delivery h ih => exact ih
    | blank hnone h ih =>
        rw [List.flatMap_cons, entriesOf, splitHeader_none hnone]
        exact ih
    | field hfield h ih =>
        rw [List.flatMap_cons, entriesOf, isField_iff.mp hfield, ih]
        rfl
  · rintro rfl
    induction events with
    | nil => exact .nil
    | cons event events ih =>
        cases event with
        | body delivery => exact .body delivery ih
        | header delivery =>
            rw [List.flatMap_cons, entriesOf]
            cases hsplit : splitHeader delivery.data with
            | some entry => exact .field (isField_iff.mpr hsplit) ih
            | none =>
                refine .blank (fun hcolon => ?_) ih
                obtain ⟨name, rest, hdata, hname⟩ := List.eq_append_cons_of_mem hcolon
                rw [hdata, splitHeader_spelled hname] at hsplit
                cases hsplit

theorem not_overflows (delivery : Delivery) :
    overflows delivery.size delivery.count = false := by
  have hwhole := delivery.whole
  have hrange := delivery.inRange
  rw [overflows, Bool.and_eq_false_iff, decide_eq_false_iff_not, decide_eq_false_iff_not]
  by_cases hsize : delivery.size = 0
  · exact Or.inl (not_not.mpr hsize)
  · apply Or.inr
    rw [not_lt, Nat.le_div_iff_mul_le (Nat.pos_of_ne_zero hsize), Nat.mul_comm]
    omega

theorem step_returns (state : ResponseState) (event : Event) :
    (step state event).2 = event.delivery.data.length := by
  cases event with
  | body delivery =>
      rw [step, body, if_neg (Bool.eq_false_iff.mp (not_overflows delivery))]
      exact delivery.whole
  | header delivery =>
      rw [step, header, if_neg (Bool.eq_false_iff.mp (not_overflows delivery))]
      cases splitHeader delivery.data with
      | none => exact delivery.whole
      | some entry => exact delivery.whole

theorem step_headers (state : ResponseState) (delivery : Delivery) :
    (step state (.header delivery)).1.headers =
      (if (ascii "HTTP/").isPrefixOf delivery.data then [] else state.headers) ++
        entriesOf (.header delivery) := by
  rw [step, header, if_neg (Bool.eq_false_iff.mp (not_overflows delivery)), entriesOf]
  cases splitHeader delivery.data with
  | none => exact (List.append_nil _).symm
  | some entry => rfl

theorem step_body_headers (state : ResponseState) (delivery : Delivery) :
    (step state (.body delivery)).1.headers = state.headers := by
  rw [step, body, if_neg (Bool.eq_false_iff.mp (not_overflows delivery))]

theorem run_returns (state : ResponseState) (events : List Event) :
    (run state events).2 = events.map fun event => event.delivery.data.length := by
  induction events generalizing state with
  | nil => rfl
  | cons event events ih => rw [run, List.map_cons, ← step_returns state event, ← ih]

theorem run_append (state : ResponseState) (front back : List Event) :
    (run state (front ++ back)).1 = (run (run state front).1 back).1 := by
  induction front generalizing state with
  | nil => rfl
  | cons event front ih => exact ih (step state event).1

/-- Without a status line the headers only grow, by the entries of the lines. -/
theorem run_headers {events : List Event} (state : ResponseState)
    (h : ∀ delivery, Event.header delivery ∈ events → ¬IsStatusLine delivery.data) :
    (run state events).1.headers = state.headers ++ events.flatMap entriesOf := by
  induction events generalizing state with
  | nil => exact (List.append_nil _).symm
  | cons event events ih =>
      have hrest := ih (step state event).1 fun delivery hm => h delivery (List.mem_cons_of_mem _ hm)
      rw [run, hrest, List.flatMap_cons, ← List.append_assoc]
      congr 1
      cases event with
      | body delivery =>
          rw [step_body_headers]
          exact (List.append_nil _).symm
      | header delivery =>
          rw [step_headers, if_neg]
          rw [List.isPrefixOf_iff_prefix]
          exact h delivery List.mem_cons_self

variable {front back : List Event} {status : Delivery} {entries : List (Bytes × Bytes)}

theorem run_status (state : ResponseState) (hstatus : IsStatusLine status.data)
    (hback : ∀ delivery, Event.header delivery ∈ back → ¬IsStatusLine delivery.data)
    (hfields : Fields back entries) :
    (run state (front ++ .header status :: back)).1.headers =
      (splitHeader status.data).toList ++ entries := by
  rw [run_append, run, run_headers _ hback, step_headers, if_pos, fields_iff.mp hfields]
  · rfl
  · exact List.isPrefixOf_iff_prefix.mpr hstatus

/-- After the last call the headers are those of the field lines behind the last status line, and
every call has returned the length of its line, exactly when that status line has no colon. -/
theorem run_headers_iff (state : ResponseState) (hstatus : IsStatusLine status.data)
    (hback : ∀ delivery, Event.header delivery ∈ back → ¬IsStatusLine delivery.data)
    (hfields : Fields back entries) :
    ((run state (front ++ .header status :: back)).1.headers = entries ∧
      (run state (front ++ .header status :: back)).2 =
        (front ++ .header status :: back).map fun event => event.delivery.data.length) ↔
    0x3a ∉ status.data := by
  rw [run_status state hstatus hback hfields, and_iff_left (run_returns _ _)]
  constructor
  · intro h hcolon
    obtain ⟨name, rest, hdata, hname⟩ := List.eq_append_cons_of_mem hcolon
    rw [hdata, splitHeader_spelled hname] at h
    have hlength := congrArg List.length h
    rw [List.length_append] at hlength
    simp at hlength
  · intro h
    rw [splitHeader_none h]
    rfl

/-- A line as libcurl delivers it: bytes are its elements. -/
def lineDelivery (text : Bytes) (h : text.length < 2 ^ 64) : Delivery :=
  ⟨text, 1, text.length, Nat.one_mul _, h⟩

def initialState : ResponseState := ⟨[], [], none⟩

def interim : List Event :=
  [.header (lineDelivery (ascii "HTTP/1.1 103 Hints: early\r\n") (by decide)),
    .header (lineDelivery (ascii "Link: a\r\n") (by decide)),
    .header (lineDelivery (ascii "\r\n") (by decide))]

def finalStatus : Delivery := lineDelivery (ascii "HTTP/1.1 200 OK\r\n") (by decide)

def finalFields : List Event :=
  [.header (lineDelivery (ascii "Date: \tMon, 01:00 \r\n") (by decide)),
    .header (lineDelivery (ascii "Via:\r\n") (by decide)),
    .header (lineDelivery (ascii "\r\n") (by decide))]

theorem run_headers_sample :
    (run initialState (interim ++ .header finalStatus :: finalFields)).1.headers =
        [(ascii "Date", ascii "Mon, 01:00"), (ascii "Via", [])] ∧
      (run initialState (interim ++ .header finalStatus :: finalFields)).2 =
        (interim ++ .header finalStatus :: finalFields).map fun event =>
          event.delivery.data.length := by
  have hback : ∀ delivery, Event.header delivery ∈ finalFields → ¬IsStatusLine delivery.data := by
    intro delivery hm
    simp only [finalFields, List.mem_cons, Event.header.injEq, List.not_mem_nil, or_false] at hm
    rcases hm with rfl | rfl | rfl
    all_goals
      unfold IsStatusLine lineDelivery
      decide
  have hstatus : IsStatusLine finalStatus.data := ⟨ascii "1.1 200 OK\r\n", rfl⟩
  exact (run_headers_iff initialState hstatus hback (fields_iff.mpr rfl)).mpr (by decide)

/-- A reason phrase with a colon is taken for a header. -/
theorem run_statusColon :
    Fields [.header (lineDelivery (ascii "\r\n") (by decide))] [] ∧
      (run initialState
        [.header (lineDelivery (ascii "HTTP/1.1 200 OK: yes\r\n") (by decide)),
          .header (lineDelivery (ascii "\r\n") (by decide))]).1.headers =
        [(ascii "HTTP/1.1 200 OK", ascii "yes")] :=
  ⟨fields_iff.mpr rfl, rfl⟩

end Transfers

end LivekitServer.CurlTransport
