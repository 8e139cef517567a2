import LivekitServer.CApiToken
import LivekitServer.TimeClaims

/-!
# The 64-bit sums of seconds

Three places add seconds in 64 bits: the receiver adds its leeway to an expiry and to the clock,
the builder adds a lifetime to the clock, and the C ABI adds the two after a range check. Each
sum is compared with the one over the integers.
-/

namespace LivekitServer

section Window
open Webhook

/-- What the checks on two time claims should do, with sums over the integers. -/
def exactCheck (now exp nbf : ℤ) : Outcome Unit := do
  throwIf (now > exp + leeway) .authentication "webhook JWT has expired"
  throwIf (now + leeway < nbf) .authentication "webhook JWT is not valid yet"

structure WindowExact (clock : SystemClock) (now : TimePoint) (claims : Bytes) (exp nbf : ℤ) :
    Prop where
  expiry_fits : InInt64 (exp + leeway)
  start_fits : InInt64 (clock.secondsSinceEpoch now + leeway)
  check : checkTimes clock now claims = exactCheck (clock.secondsSinceEpoch now) exp nbf

/-- The scan returns every number of 63 bits and a sign, and no other. -/
theorem jsonIntegerField_range {text : Bytes} {name : String} {r : ℤ}
    (h : jsonIntegerField text name = .ok (some r)) : -2 ^ 63 < r ∧ r < 2 ^ 63 := by
  obtain ⟨_, _, _, _, _, _, _, negative, digits, _, _, _, _, _, _, hfits, rfl⟩ := scans_of_ok h
  split_ifs <;> omega

theorem checkTimes_seconds {clock : SystemClock} {now : TimePoint} {claims : Bytes} {exp nbf : ℤ}
    (hexp : jsonIntegerField claims "exp" = .ok (some exp))
    (hnbf : jsonIntegerField claims "nbf" = .ok (some nbf)) :
    checkTimes clock now claims = (do
      throwIf (clock.secondsSinceEpoch now > wrapInt64 (exp + leeway)) .authentication
        "webhook JWT has expired"
      throwIf (wrapInt64 (clock.secondsSinceEpoch now + leeway) < nbf) .authentication
        "webhook JWT is not valid yet") := by
  unfold checkTimes
  rw [hexp, hnbf]
  rfl

/-- The comparisons are exact exactly when neither sum passes the end of the 64-bit range. -/
theorem windowExact_iff {clock : SystemClock} {now : TimePoint} {claims : Bytes} {exp nbf : ℤ}
    (hexp : jsonIntegerField claims "exp" = .ok (some exp))
    (hnbf : jsonIntegerField claims "nbf" = .ok (some nbf)) :
    WindowExact clock now claims exp nbf ↔
      exp + leeway < 2 ^ 63 ∧ clock.secondsSinceEpoch now + leeway < 2 ^ 63 := by
  have hrange := jsonIntegerField_range hexp
  have hnow := clock.inInt64_secondsSinceEpoch now
  unfold InInt64 at hnow
  constructor
  · exact fun h => ⟨h.expiry_fits.2, h.start_fits.2⟩
  · rintro ⟨hexpiry, hstart⟩
    have hexpiry_fits : InInt64 (exp + leeway) := by
      unfold InInt64 leeway at *
      omega
    have hstart_fits : InInt64 (clock.secondsSinceEpoch now + leeway) := by
      unfold InInt64 leeway at *
      omega
    refine ⟨hexpiry_fits, hstart_fits, ?_⟩
    rw [checkTimes_seconds hexp hnbf, wrapInt64_eq hexpiry_fits, wrapInt64_eq hstart_fits]
    rfl

/-- A clock that ticks at least twice a second never comes near the end of the range. -/
theorem clock_fits {clock : SystemClock} (h : 2 ≤ clock.ticksPerSecond) (now : TimePoint) :
    clock.secondsSinceEpoch now + leeway < 2 ^ 63 := by
  have hrange := now.inRange
  unfold InInt64 at hrange
  have hticks : (2 : ℤ) ≤ clock.ticksPerSecond := by exact_mod_cast h
  unfold SystemClock.secondsSinceEpoch leeway
  rcases le_or_gt now.ticks 0 with hneg | hpos
  · have hdown : 0 ≤ (-now.ticks).tdiv clock.ticksPerSecond :=
      Int.tdiv_nonneg (by omega) (by omega)
    rw [Int.neg_tdiv] at hdown
    omega
  · rw [Int.tdiv_eq_ediv_of_nonneg hpos.le]
    have hmul : now.ticks / clock.ticksPerSecond * clock.ticksPerSecond ≤ now.ticks :=
      Int.ediv_mul_le now.ticks (by omega)
    have hquot : 0 ≤ now.ticks / clock.ticksPerSecond := Int.ediv_nonneg hpos.le (by omega)
    have hhalf := mul_le_mul_of_nonneg_left hticks hquot
    omega

/-- Among exact windows a later expiry never expires before an earlier one. -/
theorem expired_mono {clock : SystemClock} {now : TimePoint} {claims later : Bytes}
    {exp nbf exp' nbf' : ℤ} (h : WindowExact clock now claims exp nbf)
    (h' : WindowExact clock now later exp' nbf') (hle : exp ≤ exp')
    (hexpired : checkTimes clock now later =
      raise .authentication (ascii "webhook JWT has expired")) :
    checkTimes clock now claims = raise .authentication (ascii "webhook JWT has expired") := by
  have hne : ascii "webhook JWT is not valid yet" ≠ ascii "webhook JWT has expired" := by decide
  have hlater : clock.secondsSinceEpoch now > exp' + leeway := by
    by_contra hfresh
    rw [h'.check, exactCheck, decide_eq_false hfresh] at hexpired
    change throwIf _ _ _ = _ at hexpired
    by_cases hearly : clock.secondsSinceEpoch now + leeway < nbf'
    · rw [decide_eq_true hearly] at hexpired
      exact hne (raise_inj.mp hexpired)
    · rw [decide_eq_false hearly] at hexpired
      cases hexpired
  have hnow : clock.secondsSinceEpoch now > exp + leeway := by omega
  rw [h.check, exactCheck, decide_eq_true hnow]
  rfl

def farClaims : Bytes := ascii "\x7b\"exp\":9223372036854775807,\"nbf\":0\x7d"

def nearClaims : Bytes := ascii "\x7b\"exp\":1700000300,\"nbf\":0\x7d"

theorem windowExact_near : WindowExact .nanoseconds sampleNow nearClaims 1700000300 0 :=
  (windowExact_iff (by decide +kernel) (by decide +kernel)).mpr
    ⟨by decide, clock_fits (by decide) sampleNow⟩

/-- The latest expiry of all is judged expired, an earlier one is not. -/
theorem latest_expired :
    jsonIntegerField farClaims "exp" = .ok (some (2 ^ 63 - 1)) ∧
    checkTimes .nanoseconds sampleNow farClaims =
      raise .authentication (ascii "webhook JWT has expired") ∧
    checkTimes .nanoseconds sampleNow nearClaims = .ok () ∧
    ¬ WindowExact .nanoseconds sampleNow farClaims (2 ^ 63 - 1) 0 := by
  have hfar : checkTimes .nanoseconds sampleNow farClaims =
      raise .authentication (ascii "webhook JWT has expired") := by decide +kernel
  have hnear : checkTimes .nanoseconds sampleNow nearClaims = .ok () := by decide +kernel
  have hexact : WindowExact .nanoseconds sampleNow nearClaims 1700000300 0 :=
    ⟨by decide, by decide, by rw [hnear]; rfl⟩
  refine ⟨by decide +kernel, hfar, hnear, fun h => ?_⟩
  have hexpired := expired_mono hexact h (by decide) hfar
  rw [hnear] at hexpired
  cases hexpired

end Window

section Lifetime
open AccessToken

variable (clock : SystemClock) (token : AccessToken) (backend : Crypto.Backend) (loc : Locale)
  (now : TimePoint)

end Lifetime

section SignedTimes
open CApi AccessToken

variable (clock : SystemClock)

theorem maxSeconds_eq : clock.maxSeconds = (2 ^ 63 - 1) / (clock.ticksPerSecond : ℤ) :=
  Int.tdiv_eq_ediv_of_nonneg (by norm_num)

/-- Seconds that are admitted survive the conversion to ticks and back. -/
theorem timePoint_fits {now : ℤ} (hpos : 0 ≤ now) (hmax : now ≤ clock.maxSeconds) :
    InInt64 (now * clock.ticksPerSecond) := by
  have hticks : (0 : ℤ) < clock.ticksPerSecond := by exact_mod_cast clock.ticks_pos
  have hle : now * clock.ticksPerSecond ≤ 2 ^ 63 - 1 := by
    rw [maxSeconds_eq] at hmax
    exact (Int.le_ediv_iff_mul_le hticks).mp hmax
  have hnonneg : 0 ≤ now * clock.ticksPerSecond := mul_nonneg hpos hticks.le
  unfold InInt64
  omega

variable {backend : Crypto.Backend} {loc : Locale} {options : Fields}

theorem integer_unique {name : String} {n n' : ℤ} (h : CarriesInteger options name n)
    (h' : integer options name = .ok n') : n = n' :=
  Except.ok.inj ((integer_ok.mpr h).symm.trans h')

theorem grantBlock_frame {γ : Type} {name : String} {read : Fields → Outcome γ}
    {set : AccessToken → γ → AccessToken} {token token' : AccessToken}
    (hset : ∀ t grant, (set t grant).validFor = t.validFor)
    (h : grantBlock options name read set token = .ok token') :
    token'.validFor = token.validFor := by
  unfold grantBlock at h
  by_cases hhas : has options name = true
  · rw [if_pos hhas] at h
    simp only [bind_ok] at h
    obtain ⟨_, _, grant, _, h⟩ := h
    obtain rfl := Except.ok.inj h
    exact hset token grant
  · rw [if_neg hhas] at h
    obtain rfl := Except.ok.inj h
    rfl

/-- Reading the grants leaves the lifetime alone. -/
theorem grants_validFor {token token' : AccessToken} (h : grants options token = .ok token') :
    token'.validFor = token.validFor := by
  unfold grants at h
  simp only [bind_ok] at h
  obtain ⟨_, hvideo, _, hsip, hagent⟩ := h
  have hsetVideo : ∀ (t : AccessToken) grant, (t.setVideoGrant grant).validFor = t.validFor :=
    fun _ _ => rfl
  have hsetSip : ∀ (t : AccessToken) grant, (t.setSipGrant grant).validFor = t.validFor :=
    fun _ _ => rfl
  have hsetAgent : ∀ (t : AccessToken) grant, (t.setAgentGrant grant).validFor = t.validFor :=
    fun _ _ => rfl
  rw [grantBlock_frame hsetAgent hagent, grantBlock_frame hsetSip hsip,
    grantBlock_frame hsetVideo hvideo]

/-- The builder and the time that are read passed the range check. -/
theorem tokenOptions_times {token : AccessToken} {t : TimePoint}
    (h : tokenOptions clock options = .ok (token, t)) {now ttl : ℤ}
    (hnow : CarriesInteger options "now" now) (httl : CarriesInteger options "valid_for" ttl) :
    ¬ OutOfRange clock now ttl ∧ token.validFor = ttl ∧ t = clock.timePoint now := by
  unfold tokenOptions at h
  simp only [bind_ok] at h
  obtain ⟨_, -, _, -, _, -, _, -, _, -, _, -, _, -, ttl', httl', now', hnow', h⟩ := h
  obtain rfl := integer_unique httl httl'
  obtain rfl := integer_unique hnow hnow'
  split at h
  · cases h
  · rename_i hrange
    obtain ⟨built, hbuilt, h⟩ := bind_ok.mp h
    obtain ⟨granted, hgranted, h⟩ := bind_ok.mp h
    obtain ⟨rfl, rfl⟩ := Prod.mk.inj (Except.ok.inj h)
    refine ⟨hrange, ?_, rfl⟩
    rw [grants_validFor hgranted]
    unfold AccessToken.setValidFor at hbuilt
    split at hbuilt
    · cases hbuilt
    · obtain rfl := Except.ok.inj hbuilt
      rfl

variable (backend loc) in
/-- Times out of range are refused, whatever the other options are. -/
theorem sign_outOfRange {now ttl : ℤ} (hnow : CarriesInteger options "now" now)
    (httl : CarriesInteger options "valid_for" ttl) (hout : OutOfRange clock now ttl) :
    ∃ message, sign clock backend loc options = raise .invalidArgument message := by
  rcases settled_tokenOptions clock options with ⟨⟨token, t⟩, hok⟩ | ⟨message, hraise⟩
  · exact absurd hout (tokenOptions_times clock hok hnow httl).1
  · refine ⟨message, ?_⟩
    unfold sign
    rw [hraise]
    rfl

/-- A builder signs times that do not overflow as they are, if it signs at all. -/
theorem toJwt_times {token : AccessToken} {now : ℤ}
    (hissued : clock.secondsSinceEpoch (clock.timePoint now) = now)
    (hsum : InInt64 (now + token.validFor)) (hkey : token.apiKey ≠ [])
    (hsecret : token.apiSecret ≠ []) :
    token.toJwt clock backend loc (clock.timePoint now) =
      jwtOver backend token.apiSecret (claimsText loc token now (now + token.validFor)) := by
  have hissuedAt : issuedAt clock (clock.timePoint now) = now := hissued
  have hexpires : token.expiresAt clock (clock.timePoint now) = now + token.validFor := by
    unfold expiresAt
    rw [hissuedAt, wrapInt64_eq hsum]
  rw [toJwt_eq clock token backend loc _ hkey hsecret, hexpires, hissuedAt]

theorem keys_of_toJwt {token : AccessToken} {t : TimePoint} {jwt : Bytes}
    (h : token.toJwt clock backend loc t = .ok jwt) :
    token.apiKey ≠ [] ∧ token.apiSecret ≠ [] := by
  by_contra hempty
  rw [not_and_or, not_not, not_not] at hempty
  rw [toJwt, if_pos hempty] at h
  cases h

/-- What `Sign` does with times: the check is the one over the integers and refuses what it does
not admit, no conversion or sum behind it overflows, and the claims that are signed show both times
as they are. -/
structure SignsTimes (clock : SystemClock) (now ttl : ℤ) : Prop where
  check : ¬OutOfRange clock now ttl ↔
    0 ≤ now ∧ 0 < ttl ∧ now + ttl ≤ (2 ^ 63 - 1) / (clock.ticksPerSecond : ℤ)
  check_fits : 0 < ttl → ttl ≤ clock.maxSeconds → InInt64 (clock.maxSeconds - ttl)
  fits : ¬OutOfRange clock now ttl → InInt64 (now * clock.ticksPerSecond) ∧
    clock.secondsSinceEpoch (clock.timePoint now) = now ∧ InInt64 (now + ttl)
  refused : ∀ backend loc options, CarriesInteger options "now" now →
    CarriesInteger options "valid_for" ttl → OutOfRange clock now ttl →
    ∃ message, sign clock backend loc options = raise .invalidArgument message
  signed : ∀ backend loc options jwt, CarriesInteger options "now" now →
    CarriesInteger options "valid_for" ttl → sign clock backend loc options = .ok jwt →
    ∃ token, tokenOptions clock options = .ok (token, clock.timePoint now) ∧
      token.validFor = ttl ∧
      jwtOver backend token.apiSecret (claimsText loc token now (now + ttl)) = .ok jwt
  admitted : ∀ backend loc options token, CarriesToken options token now → token.validFor = ttl →
    token.apiKey ≠ [] → token.apiSecret ≠ [] → ∀ jwt,
    (sign clock backend loc options = .ok jwt ↔ ¬OutOfRange clock now ttl ∧
      jwtOver backend token.apiSecret (claimsText loc token now (now + ttl)) = .ok jwt)

theorem sign_times (now ttl : ℤ) : SignsTimes clock now ttl := by
  have hmax := clock.maxSeconds_lt
  have hfits : ¬ OutOfRange clock now ttl → InInt64 (now * clock.ticksPerSecond) ∧
      clock.secondsSinceEpoch (clock.timePoint now) = now ∧ InInt64 (now + ttl) := by
    intro hrange
    obtain ⟨hnow, hpos, hsum⟩ := (range_iff clock).mp hrange
    have hticks := timePoint_fits clock hnow (by omega)
    exact ⟨hticks, clock.secondsSinceEpoch_timePoint hticks,
      clock.inInt64_of_le_maxSeconds (by omega) hsum⟩
  constructor
  case check => rw [range_iff, maxSeconds_eq]
  case check_fits =>
    intro hpos hle
    unfold InInt64
    omega
  case fits => exact hfits
  case refused =>
    exact fun backend loc options hnow httl => sign_outOfRange clock backend loc hnow httl
  case signed =>
    intro backend loc options jwt hnow httl hjwt
    obtain ⟨⟨token, t⟩, hread, htoken⟩ := bind_ok.mp hjwt
    obtain ⟨hrange, rfl, rfl⟩ := tokenOptions_times clock hread hnow httl
    obtain ⟨_, hissued, hsum⟩ := hfits hrange
    obtain ⟨hkey, hsecret⟩ := keys_of_toJwt clock htoken
    exact ⟨token, hread, rfl, (toJwt_times clock hissued hsum hkey hsecret).symm.trans htoken⟩
  case admitted =>
    rintro backend loc options token hcarries rfl hkey hsecret jwt
    by_cases hout : OutOfRange clock now token.validFor
    · obtain ⟨message, hraise⟩ := sign_outOfRange clock backend loc hcarries.now hcarries.validFor
        hout
      rw [hraise]
      refine iff_of_false (fun h => ?_) fun h => h.1 hout
      cases h
    · obtain ⟨hnow, -, hsum⟩ := (range_iff clock).mp hout
      obtain ⟨_, hissued, hfit⟩ := hfits hout
      rw [sign_of_carries clock backend loc options hcarries hnow hsum,
        toJwt_times clock hissued hfit hkey hsecret, and_iff_right hout]

/-- Options whose lifetime ends after the last second of the clock. -/
def lateOptions : Fields :=
  [(ascii "valid_for", .string (Decimal.signed (2 ^ 63 - 1))),
    (ascii "now", .string (Decimal.signed 1700000000))]

/-- The sample options are signed with their times, and the late ones are refused. -/
theorem sign_times_sample :
    (∃ jwt, sign .nanoseconds (.constant [] (List.replicate 32 7)) .classic sampleOptions =
        .ok jwt ∧
      jwtOver (.constant [] (List.replicate 32 7)) (ascii "secret")
        (claimsText .classic optionsToken 1700000000 1700003600) = .ok jwt) ∧
      ∃ message, sign .nanoseconds (.constant [] (List.replicate 32 7)) .classic lateOptions =
        raise .invalidArgument message := by
  constructor
  · obtain ⟨jwt, hjwt⟩ : ∃ jwt, jwtOver (.constant [] (List.replicate 32 7)) (ascii "secret")
        (claimsText .classic optionsToken 1700000000 1700003600) = .ok jwt := ⟨_, rfl⟩
    refine ⟨jwt, ?_, hjwt⟩
    exact ((sign_times .nanoseconds 1700000000 3600).admitted _ _ _ _ carries_sampleOptions rfl
      (by decide) (by decide) jwt).mpr ⟨by decide, hjwt⟩
  · exact (sign_times .nanoseconds 1700000000 (2 ^ 63 - 1)).refused _ _ _
      (carriesInteger_signed lateOptions (by decide) rfl)
      (carriesInteger_signed lateOptions (by decide) rfl) (by decide)

end SignedTimes

end LivekitServer
