import LivekitServer.WebhookReceiver
import LivekitServer.ReferenceRuntime

/-!
# Webhook authenticity

`Verified` collects what a token must satisfy, segment by segment, and `run_verify` says that the
receiver's checks return exactly for such tokens, after one call of the key provider.
`receiveAt_authentic` adds the splitter, the checksum and the callbacks.
-/

namespace LivekitServer.Webhook
open Program

section Splitting

theorem find_first {first rest : Bytes} (h : 0x2e ∉ first) :
    (first ++ 0x2e :: rest).find 0x2e 0 = some first.length := by
  have hf := Bytes.find_append [] h rest
  simpa using hf

theorem find_second {first second third : Bytes} (h : 0x2e ∉ second) :
    (first ++ 0x2e :: (second ++ 0x2e :: third)).find 0x2e (first.length + 1) =
      some (first.length + 1 + second.length) := by
  have hf := Bytes.find_append (first ++ [0x2e]) h third
  simpa using hf

theorem drop_third (first second third : Bytes) :
    (first ++ 0x2e :: (second ++ 0x2e :: third)).drop (first.length + 1 + second.length + 1) =
      third := by
  have hl : first.length + 1 + second.length + 1 =
      (first ++ 0x2e :: (second ++ [0x2e])).length := by
    simp only [List.length_append, List.length_cons, List.length_nil]
    omega
  have happ : first ++ 0x2e :: (second ++ 0x2e :: third) =
      (first ++ 0x2e :: (second ++ [0x2e])) ++ third := by simp
  rw [hl, happ, List.drop_left]

theorem find_third (first second third : Bytes) :
    ((first ++ 0x2e :: (second ++ 0x2e :: third)).find 0x2e
      (first.length + 1 + second.length + 1)).isSome = decide (0x2e ∈ third) := by
  unfold Bytes.find
  rw [drop_third, Option.isSome_map]
  by_cases h : 0x2e ∈ third
  · rw [decide_eq_true h]
    simpa using h
  · rw [decide_eq_false h, Bytes.idxOf?_of_notMem h]
    rfl

/-- Three segments between two dots. -/
structure Segments (text first second third : Bytes) : Prop where
  text_eq : text = first ++ 0x2e :: (second ++ 0x2e :: third)
  first_dots : 0x2e ∉ first
  second_dots : 0x2e ∉ second
  third_dots : 0x2e ∉ third

variable (services : Services)

theorem authenticate_segments {authorization first second third : Bytes}
    (h : Segments (stripBearer authorization) first second third) :
    authenticate services authorization =
      verify services (first ++ 0x2e :: (second ++ 0x2e :: third)) first.length
        (first.length + 1 + second.length) := by
  have hne : first ++ 0x2e :: (second ++ 0x2e :: third) ≠ [] := by simp
  simp only [authenticate, h.text_eq, if_neg hne, find_first h.first_dots, Bytes.afterIndex,
    find_second h.second_dots, find_third, h.third_dots, decide_false, Bool.false_eq_true,
    if_false]

/-- Without exactly two dots nothing is decoded and nobody is called. -/
theorem authenticate_unsplit {authorization : Bytes}
    (h : ¬ ∃ first second third, Segments (stripBearer authorization) first second third) :
    ∃ e, authenticate services authorization = done (.error e) := by
  unfold authenticate
  generalize stripBearer authorization = text at h ⊢
  by_cases hempty : text = []
  · exact ⟨_, if_pos hempty⟩
  rw [if_neg hempty]
  rcases Bytes.splits_at 0x2e text with hnone | ⟨first, rest, hfirst, rfl⟩
  · have hfind : text.find 0x2e 0 = none := Bytes.find_none (by simpa using hnone)
    simp only [hfind]
    exact ⟨_, rfl⟩
  rcases Bytes.splits_at 0x2e rest with hnone | ⟨second, third, hsecond, rfl⟩
  · have hdrop : (first ++ 0x2e :: rest).drop (first.length + 1) = rest := by simp
    have hfind : (first ++ 0x2e :: rest).find 0x2e (first.length + 1) = none :=
      Bytes.find_none (by rwa [hdrop])
    simp only [find_first hfirst, Bytes.afterIndex, hfind]
    exact ⟨_, rfl⟩
  · have hthird : 0x2e ∈ third := by
      by_contra hthird
      exact h ⟨first, second, third, rfl, hfirst, hsecond, hthird⟩
    simp only [find_first hfirst, Bytes.afterIndex, find_second hsecond, find_third, hthird,
      decide_true, if_true]
    exact ⟨_, rfl⟩

end Splitting

section Verification

theorem throwIf_ok {condition : Bool} {code : ErrorCode} {message : String} {u : Unit} :
    throwIf condition code message = .ok u ↔ condition = false := by
  cases condition <;> simp [throwIf, raise]

theorem jsonStringField_ok {parseStruct : Bytes → Option Fields} {json : Bytes} {name : String}
    {value : Bytes} :
    jsonStringField parseStruct json name = .ok value ↔ ∃ object, parseStruct json = some object ∧
      (object.lookup (ascii name) = some (.string value) ∨
        object.lookup (ascii name) = none ∧ value = []) := by
  unfold jsonStringField
  cases parseStruct json with
  | none => simp only [raise, reduceCtorEq, false_and, exists_false]
  | some object =>
      simp only [Option.some.injEq, exists_eq_left']
      cases object.lookup (ascii name) with
      | none => simp only [reduceCtorEq, false_or, true_and, Except.ok.injEq, eq_comm]
      | some item => cases item <;> simp only [raise, reduceCtorEq, Option.some.injEq,
          Value.string.injEq, Except.ok.injEq, false_and, or_false]

/-- A string field that is there. -/
def HasString (parseStruct : Bytes → Option Fields) (json : Bytes) (name : String)
    (value : Bytes) : Prop :=
  ∃ object, parseStruct json = some object ∧ object.lookup (ascii name) = some (.string value)

theorem jsonStringField_nonempty {parseStruct : Bytes → Option Fields} {json : Bytes}
    {name : String} {value : Bytes} (h : value ≠ []) :
    jsonStringField parseStruct json name = .ok value ↔
      HasString parseStruct json name value := by
  simp only [jsonStringField_ok, h, and_false, or_false, HasString]

/-- What a token satisfies that passes the checks: its segments, the key and secret it is signed
with, and the claims it carries. -/
structure Verified (services : Services) (provider : Bytes → Outcome Bytes)
    (first second third issuer claims : Bytes) : Prop where
  alg : ∃ header, Crypto.base64UrlDecode first = .ok header ∧
    HasString services.parseStruct header "alg" (ascii "HS256")
  claims_eq : Crypto.base64UrlDecode second = .ok claims
  iss : HasString services.parseStruct claims "iss" issuer
  issuer_ne : issuer ≠ []
  signature : ∃ secret mac, provider issuer = .ok secret ∧ secret ≠ [] ∧
    Crypto.hmacSha256 services.backend secret (first ++ 0x2e :: second) = .ok mac ∧
    Crypto.base64UrlDecode third = .ok mac

theorem substr_first (first rest : Bytes) : (first ++ rest).substr 0 first.length = first := by
  simp [Bytes.substr]

theorem substr_second (first second third : Bytes) :
    (first ++ 0x2e :: (second ++ 0x2e :: third)).substr (first.length + 1)
      (first.length + 1 + second.length - first.length - 1) = second := by
  have hl : first.length + 1 + second.length - first.length - 1 = second.length := by omega
  rw [hl]
  simp [Bytes.substr]

theorem substr_signed (first second third : Bytes) :
    (first ++ 0x2e :: (second ++ 0x2e :: third)).substr 0 (first.length + 1 + second.length) =
      first ++ 0x2e :: second := by
  have hl : first.length + 1 + second.length = (first ++ 0x2e :: second).length := by
    simp only [List.length_append, List.length_cons]
    omega
  have happ : first ++ 0x2e :: (second ++ 0x2e :: third) =
      (first ++ 0x2e :: second) ++ 0x2e :: third := by simp
  rw [hl, happ, substr_first]

variable {services : Services} {provider : Bytes → Outcome Bytes}

/-- The checks return exactly for verified tokens, after one call of the key provider. -/
theorem run_verify {first second third claims : Bytes} {log : List Bytes} :
    run provider (verify services (first ++ 0x2e :: (second ++ 0x2e :: third)) first.length
      (first.length + 1 + second.length)) = (log, .ok claims) ↔
      ∃ issuer, log = [issuer] ∧ Verified services provider first second third issuer claims := by
  have hreturn : ∀ (log : List Bytes) (c : Bytes),
      run provider (pure c : KeyProgram Bytes) = (log, .ok claims) ↔ log = [] ∧ c = claims := by
    intro log c
    rw [run_pure, Prod.mk.injEq, Except.ok.injEq, eq_comm]
  unfold verify
  simp only [substr_first, substr_second, substr_signed, drop_third, liftM_eq,
    run_done_bind_ok, run_perform_bind_ok, throwIf_ok, exists_const, hreturn]
  constructor
  · rintro ⟨header, hheader, alg, halg, halg', claims', hclaims, issuer, hissuer, hissuer', secret,
      rest, hsecret, ⟨hsecret', mac, hmac, actual, hactual, hequal, rfl, rfl⟩, rfl⟩
    have halg_eq : alg = ascii "HS256" := by simpa using halg'
    have hmac_eq : mac = actual := by
      rw [← Crypto.constantTimeEqual_iff]
      simpa using hequal
    have hissuer_ne : issuer ≠ [] := by simpa using hissuer'
    subst halg_eq hmac_eq
    exact ⟨issuer, rfl,
      { alg := ⟨header, hheader, (jsonStringField_nonempty (by decide)).mp halg⟩
        claims_eq := hclaims
        iss := (jsonStringField_nonempty hissuer_ne).mp hissuer
        issuer_ne := hissuer_ne
        signature := ⟨secret, mac, hsecret, by simpa using hsecret', hmac, hactual⟩ }⟩
  · rintro ⟨issuer, rfl, h⟩
    obtain ⟨header, hheader, halg⟩ := h.alg
    obtain ⟨secret, mac, hsecret, hsecret_ne, hmac, hactual⟩ := h.signature
    refine ⟨header, hheader, _, (jsonStringField_nonempty (by decide)).mpr halg, by simp, claims,
      h.claims_eq, issuer, (jsonStringField_nonempty h.issuer_ne).mpr h.iss, by simp [h.issuer_ne],
      secret, [], hsecret, ⟨by simp [hsecret_ne], mac, hmac, mac, hactual, ?_, rfl, rfl⟩, rfl⟩
    simp [(Crypto.constantTimeEqual_iff mac mac).mpr rfl]

theorem run_authenticate {authorization claims : Bytes} {log : List Bytes} :
    run provider (authenticate services authorization) = (log, .ok claims) ↔
      ∃ first second third issuer, Segments (stripBearer authorization) first second third ∧
        log = [issuer] ∧ Verified services provider first second third issuer claims := by
  by_cases hsplit : ∃ first second third, Segments (stripBearer authorization) first second third
  · constructor
    · intro h
      obtain ⟨first, second, third, hsegments⟩ := hsplit
      rw [authenticate_segments services hsegments, run_verify] at h
      obtain ⟨issuer, hlog, hverified⟩ := h
      exact ⟨first, second, third, issuer, hsegments, hlog, hverified⟩
    · rintro ⟨first, second, third, issuer, hsegments, hlog, hverified⟩
      rw [authenticate_segments services hsegments, run_verify]
      exact ⟨issuer, hlog, hverified⟩
  · obtain ⟨e, he⟩ := authenticate_unsplit services hsplit
    constructor
    · intro h
      rw [he, run_done] at h
      cases h
    · rintro ⟨first, second, third, issuer, hsegments, -⟩
      exact absurd ⟨first, second, third, hsegments⟩ hsplit

theorem run_receiveAt {clock : SystemClock} {now : TimePoint} {body authorization : Bytes}
    {log : List Bytes} {event : WebhookEvent} :
    run provider (receiveAt services clock now body authorization) = (log, .ok event) ↔
      ∃ claims, run provider (authenticate services authorization) = (log, .ok claims) ∧
        receiveClaims services clock now body claims = .ok event := by
  rw [receiveAt, run_bind_ok]
  constructor
  · rintro ⟨front, claims, back, hfront, hback, rfl⟩
    rw [liftM_eq, run_done, Prod.mk.injEq] at hback
    rw [← hback.1, List.append_nil]
    exact ⟨claims, hfront, hback.2⟩
  · rintro ⟨claims, hlog, hevent⟩
    exact ⟨log, claims, [], hlog, by rw [hevent]; rfl, (List.append_nil log).symm⟩

theorem checkBody_ok {claims body : Bytes} {u : Unit}
    (h : checkBody services claims body = .ok u) :
    ∃ digest, Crypto.sha256 services.backend body = .ok digest ∧
      HasString services.parseStruct claims "sha256" (Crypto.base64Encode digest) := by
  unfold checkBody at h
  cases hclaimed : jsonStringField services.parseStruct claims "sha256" with
  | error e => rw [hclaimed] at h; cases h
  | ok claimed =>
      cases hdigest : Crypto.sha256 services.backend body with
      | error e => rw [hclaimed, hdigest] at h; cases h
      | ok digest =>
          rw [hclaimed, hdigest] at h
          have hc := throwIf_ok.mp h
          simp only [Bool.or_eq_false_iff, decide_eq_false_iff_not, Bool.not_eq_false',
            Crypto.constantTimeEqual_iff] at hc
          obtain ⟨hne, rfl⟩ := hc
          exact ⟨digest, rfl, (jsonStringField_nonempty hne).mp hclaimed⟩

theorem receiveClaims_ok {clock : SystemClock} {now : TimePoint} {body claims : Bytes}
    {event : WebhookEvent} (h : receiveClaims services clock now body claims = .ok event) :
    (∃ digest, Crypto.sha256 services.backend body = .ok digest ∧
      HasString services.parseStruct claims "sha256" (Crypto.base64Encode digest)) ∧
    event.rawBody = body := by
  unfold receiveClaims at h
  cases htimes : checkTimes clock now claims with
  | error e => rw [htimes] at h; cases h
  | ok u =>
      cases hbody : checkBody services claims body with
      | error e => rw [htimes, hbody] at h; cases h
      | ok v =>
          rw [htimes, hbody] at h
          change parseBody services body = .ok event at h
          unfold parseBody at h
          cases hparse : services.parseEvent body with
          | error status => rw [hparse] at h; cases h
          | ok parsed =>
              rw [hparse] at h
              obtain rfl := Except.ok.inj h
              exact ⟨checkBody_ok hbody, rfl⟩

end Verification

section Authenticity

/-- The authorization is a token for the body, signed with the secret of its issuer. -/
def Authentic (services : Services) (provider : Bytes → Outcome Bytes)
    (body authorization issuer : Bytes) : Prop :=
  ∃ first second third claims digest,
    Segments (stripBearer authorization) first second third ∧
    Verified services provider first second third issuer claims ∧
    Crypto.sha256 services.backend body = .ok digest ∧
    HasString services.parseStruct claims "sha256" (Crypto.base64Encode digest)

variable (services : Services) (callbacks : CallbackSlot → Bool) (clock : SystemClock)
  (now : TimePoint) (body authorization : Bytes) (outside : ∀ call, Outcome (Reply call))

/-- The key provider among what the receiver calls. -/
def keyProvider (key : Bytes) : Outcome Bytes := outside (.provideKey key)

/-- Callbacks run only after the receiver has returned an event. -/
theorem callback_received {slot : CallbackSlot} {event : WebhookEvent}
    (h : Call.callback slot event ∈
      (receiveAndDispatch services callbacks clock now body authorization).log outside) :
    ∃ received, (receiveAt services clock now body authorization).result
      (keyProvider outside) = .ok received := by
  rw [receiveAndDispatch, log, run_bind, run_translate] at h
  simp only [List.mem_append, List.mem_flatMap] at h
  rcases h with ⟨key, _, hkey⟩ | h
  · exact absurd (List.mem_singleton.mp hkey) (by simp)
  · change Call.callback slot event ∈ (run outside (onValue (dispatch callbacks)
      ((receiveAt services clock now body authorization).result (keyProvider outside)))).1 at h
    cases hr : (receiveAt services clock now body authorization).result (keyProvider outside) with
    | error e =>
        rw [hr] at h
        exact absurd h List.not_mem_nil
    | ok received => exact ⟨received, rfl⟩

/-- An event is returned, and callbacks run, only for an authentic token and body; the key
provider was then called once, with the issuer. Anything else throws and runs no callback. -/
theorem receiveAt_authentic :
    (∀ event, (receiveAt services clock now body authorization).result (keyProvider outside) =
        .ok event →
      ∃ issuer, Authentic services (keyProvider outside) body authorization issuer ∧
        (receiveAt services clock now body authorization).log (keyProvider outside) = [issuer] ∧
        event.rawBody = body) ∧
    (∀ slot event, Call.callback slot event ∈
        (receiveAndDispatch services callbacks clock now body authorization).log outside →
      ∃ received, (receiveAt services clock now body authorization).result (keyProvider outside) =
        .ok received) ∧
    ((¬ ∃ issuer, Authentic services (keyProvider outside) body authorization issuer) →
      (∃ e, (receiveAt services clock now body authorization).result (keyProvider outside) =
        .error e) ∧
      ∀ slot event, Call.callback slot event ∉
        (receiveAndDispatch services callbacks clock now body authorization).log outside) := by
  have hreturned : ∀ event,
      (receiveAt services clock now body authorization).result (keyProvider outside) = .ok event →
        ∃ issuer, Authentic services (keyProvider outside) body authorization issuer ∧
          (receiveAt services clock now body authorization).log (keyProvider outside) = [issuer] ∧
          event.rawBody = body := by
    intro event hevent
    obtain ⟨claims, hauth, hclaims⟩ := run_receiveAt.mp (Prod.ext rfl hevent)
    obtain ⟨first, second, third, issuer, hsegments, hlog, hverified⟩ := run_authenticate.mp hauth
    obtain ⟨⟨digest, hdigest, hchecksum⟩, hraw⟩ := receiveClaims_ok hclaims
    exact ⟨issuer, ⟨first, second, third, claims, digest, hsegments, hverified, hdigest,
      hchecksum⟩, hlog, hraw⟩
  have hcallback : ∀ slot event, Call.callback slot event ∈
      (receiveAndDispatch services callbacks clock now body authorization).log outside →
        ∃ received, (receiveAt services clock now body authorization).result
          (keyProvider outside) = .ok received := fun slot event h =>
    callback_received services callbacks clock now body authorization outside h
  refine ⟨hreturned, hcallback, fun hnot => ?_⟩
  have hnone : ∀ event, (receiveAt services clock now body authorization).result
      (keyProvider outside) ≠ .ok event := fun event hevent =>
    let ⟨issuer, hauthentic, _⟩ := hreturned event hevent
    hnot ⟨issuer, hauthentic⟩
  refine ⟨?_, fun slot event h => ?_⟩
  · cases hr : (receiveAt services clock now body authorization).result (keyProvider outside) with
    | error e => exact ⟨e, rfl⟩
    | ok event => exact absurd hr (hnone event)
  · obtain ⟨event, hevent⟩ := hcallback slot event h
    exact hnone event hevent

def sampleBody : Bytes := ascii "\x7b\"event\":\"room_started\",\"id\":\"EV_2\"\x7d"

def sampleDigest : Bytes :=
  [23, 175, 255, 46, 45, 226, 86, 130, 116, 231, 34, 18, 41, 67, 72, 9, 3, 208, 13, 111, 1, 80,
    33, 222, 156, 174, 71, 195, 124, 130, 16, 32]

/-- The digest that signs the sample token with the secret `secret`. -/
def sampleMac : Bytes :=
  [52, 63, 240, 103, 233, 91, 200, 60, 154, 124, 180, 95, 75, 131, 13, 238, 78, 225, 168, 120,
    195, 121, 193, 21, 215, 176, 154, 40, 89, 245, 30, 192]

def sampleClaims : Bytes :=
  ascii "\x7b\"iss\":\"key\",\"nbf\":1700000000,\"exp\":1700000300,\"sha256\":\"" ++
    Crypto.base64Encode sampleDigest ++ ascii "\"\x7d"

def sampleJwt : Bytes :=
  Crypto.base64UrlEncode (ascii "\x7b\"alg\":\"HS256\",\"typ\":\"JWT\"\x7d") ++ [0x2e] ++
    Crypto.base64UrlEncode sampleClaims ++ [0x2e] ++ Crypto.base64UrlEncode sampleMac

def sampleMessage : EventMessage :=
  ⟨ascii "room_started", ascii "EV_2", 0, none, none, none, none, none, by decide⟩

/-- The services as they answer for the sample token and body. -/
def sampleServices : Services where
  backend := .constant sampleDigest sampleMac
  parseStruct := readStruct
  parseEvent _ := .ok sampleMessage

def sampleOutside : ∀ call, Outcome (Reply call)
  | .provideKey key => .ok (singleKey (ascii "key") (ascii "secret") key)
  | .callback _ _ => .ok ()

def sampleEvent : WebhookEvent :=
  ⟨ascii "room_started", ascii "EV_2", 0, none, none, none, none, none, sampleBody, by decide⟩

theorem receiveAt_authentic_sample :
    ∃ issuer, Authentic sampleServices (keyProvider sampleOutside) sampleBody
      (ascii "Bearer " ++ sampleJwt) issuer ∧
    (receiveAt sampleServices .nanoseconds sampleNow sampleBody
      (ascii "Bearer " ++ sampleJwt)).log (keyProvider sampleOutside) = [issuer] ∧
    sampleEvent.rawBody = sampleBody :=
  (receiveAt_authentic sampleServices (fun _ => true) .nanoseconds
    sampleNow sampleBody (ascii "Bearer " ++ sampleJwt) sampleOutside).1
    sampleEvent (by decide +kernel)

end Authenticity
end LivekitServer.Webhook
