import LivekitServer.TimeScan
import LivekitServer.WebhookAuthenticity
import Mathlib.Algebra.Order.Floor.Ring
import Mathlib.Data.Rat.Floor

/-!
# The time window of a token

A time claim bounds the seconds at which a token is accepted. `meaning` takes the bounds from the
members of the claims object, `Scans` from the raw text; `Interchangeable` says when two pairs of
bounds give the same verdict in every second that the clock can show.
-/

namespace LivekitServer.Webhook
open Program

section Windows

inductive Verdict
  | refused
  | expired
  | early
  | valid

/-- The seconds for which `now_seconds + leeway_seconds` does not overflow. -/
def earliest : ℤ := -2 ^ 63

def latest : ℤ := 2 ^ 63 - 61

def InWindow (now : ℤ) : Prop := earliest ≤ now ∧ now ≤ latest

/-- The verdict on a last and a first second; nothing stands for a claim that is refused. -/
def verdict (last first : Option ℤ) (now : ℤ) : Verdict :=
  match last with
  | none => .refused
  | some t =>
    if t < now then .expired
    else
      match first with
      | none => .refused
      | some s => if now < s then .early else .valid

/-- A refused token may be rejected for any reason. -/
def Meets (v required : Verdict) : Prop := v = required ∨ required = .refused ∧ v ≠ .valid

def NeverValid (last first : Option ℤ) : Prop := ∀ t ∈ last, ∀ s ∈ first, t < s

/-- The first pair of bounds does what the second one requires. -/
def Interchangeable : Option ℤ → Option ℤ → Option ℤ → Option ℤ → Prop
  | last, first, none, _ => NeverValid last first
  | none, _, some t', none => t' = latest
  | some t, first, some t', none => t ≤ t' ∧ NeverValid (some t) first
  | none, _, some _, some _ => False
  | some t, none, some t', some _ => t = t' ∧ t < earliest
  | some t, some s, some t', some s' => t = t' ∧ (s = s' ∨ t < s ∧ t < s')

/-- The last second, moved to the end of the window or in front of it. -/
def clampLast (t : ℤ) : ℤ := max (earliest - 1) (min latest t)

def clampFirst (s : ℤ) : ℤ := max earliest (min (latest + 1) s)

theorem clampLast_lt {t now : ℤ} (h : InWindow now) : clampLast t < now ↔ t < now := by
  unfold InWindow earliest latest at h
  unfold clampLast earliest latest
  omega

theorem lt_clampFirst {s now : ℤ} (h : InWindow now) : now < clampFirst s ↔ now < s := by
  unfold InWindow earliest latest at h
  unfold clampFirst earliest latest
  omega

theorem clampLast_bounds (t : ℤ) : earliest - 1 ≤ clampLast t ∧ clampLast t ≤ latest := by
  unfold clampLast earliest latest
  omega

theorem clampFirst_bounds (s : ℤ) : earliest ≤ clampFirst s ∧ clampFirst s ≤ latest + 1 := by
  unfold clampFirst earliest latest
  omega

theorem earliest_le_latest : earliest ≤ latest := by decide

theorem meets_refused {v : Verdict} : Meets v .refused ↔ v ≠ .valid := by
  cases v <;> simp [Meets]

theorem meets_eq {v required : Verdict} (h : required ≠ .refused) :
    Meets v required ↔ v = required := by
  simp [Meets, h]

theorem verdict_expired {last first : Option ℤ} {now : ℤ} :
    verdict last first now = .expired ↔ ∃ t ∈ last, t < now := by
  cases last with
  | none => simp [verdict]
  | some t =>
      by_cases ht : t < now
      · simp [verdict, ht]
      · cases first with
        | none => simp [verdict, ht]
        | some s => by_cases hs : now < s <;> simp [verdict, ht, hs]

theorem verdict_valid {last first : Option ℤ} {now : ℤ} :
    verdict last first now = .valid ↔ ∃ t ∈ last, ∃ s ∈ first, s ≤ now ∧ now ≤ t := by
  cases last with
  | none => simp [verdict]
  | some t =>
      by_cases ht : t < now
      · simp [verdict, ht]
      · cases first with
        | none => simp [verdict, ht]
        | some s =>
            by_cases hs : now < s
            · simp [verdict, ht, hs]
            · simp [verdict, ht, hs, not_lt.mp ht, not_lt.mp hs]

/-- The bounds that occur: the last second is not behind the window, the first not before it. -/
structure Bounded (last first : Option ℤ) : Prop where
  last_ge : ∀ t ∈ last, earliest - 1 ≤ t
  last_le : ∀ t ∈ last, t ≤ latest
  first_ge : ∀ s ∈ first, earliest ≤ s
  first_le : ∀ s ∈ first, s ≤ latest + 1

theorem neverValid_iff {last first : Option ℤ} (h : Bounded last first) :
    NeverValid last first ↔ ∀ now, InWindow now → verdict last first now ≠ .valid := by
  constructor
  · intro hnever now _ hvalid
    obtain ⟨t, ht, s, hs, hsnow, hnowt⟩ := verdict_valid.mp hvalid
    have hlt := hnever t ht s hs
    omega
  · intro hall t ht s hs
    by_contra hle
    have hge := h.first_ge s hs
    have hlast := h.last_le t ht
    have hwindow : InWindow s := ⟨hge, by omega⟩
    exact hall s hwindow (verdict_valid.mpr ⟨t, ht, s, hs, le_rfl, by omega⟩)

theorem verdict_some (t s now : ℤ) :
    verdict (some t) (some s) now =
      if t < now then .expired else if now < s then .early else .valid := rfl

theorem verdict_none (t now : ℤ) :
    verdict (some t) none now = if t < now then .expired else .refused := rfl

theorem required_some_ne (t s now : ℤ) : verdict (some t) (some s) now ≠ .refused := by
  rw [verdict_some]
  split_ifs <;> simp

theorem verdicts_agree {t s t' s' now : ℤ} :
    verdict (some t) (some s) now = verdict (some t') (some s') now ↔
      (t < now ↔ t' < now) ∧ (now ≤ t → (now < s ↔ now < s')) := by
  rw [verdict_some, verdict_some]
  split_ifs <;> simp <;> omega

/-- The start is refused: the token has to be refused up to its last second, then expired. -/
theorem interchangeable_refusedStart {last first : Option ℤ} {t' : ℤ} (h : Bounded last first)
    (ht' : earliest - 1 ≤ t' ∧ t' ≤ latest) :
    Interchangeable last first (some t') none ↔
      ∀ now, InWindow now → Meets (verdict last first now) (verdict (some t') none now) := by
  cases last with
  | none =>
      constructor
      · rintro rfl now hnow
        rw [verdict_none, if_neg (not_lt.mpr hnow.2)]
        exact Or.inl rfl
      · intro hall
        have hlatest := hall latest ⟨earliest_le_latest, le_rfl⟩
        by_contra hne
        have hlt : t' < latest := lt_of_le_of_ne ht'.2 hne
        rw [verdict_none, if_pos hlt, meets_eq (by simp)] at hlatest
        cases hlatest
  | some t =>
      constructor
      · rintro ⟨hle, hnever⟩ now hnow
        rw [verdict_none]
        by_cases hlt : t' < now
        · rw [if_pos hlt]
          exact Or.inl (verdict_expired.mpr ⟨t, rfl, by omega⟩)
        · rw [if_neg hlt, meets_refused]
          exact (neverValid_iff h).mp hnever now hnow
      · intro hall
        have hle : t ≤ t' := by
          by_contra hlt
          have hlast := h.last_le t rfl
          have hnext := hall (t' + 1) ⟨by omega, by omega⟩
          rw [verdict_none, if_pos (by omega), meets_eq (by simp), verdict_expired] at hnext
          obtain ⟨u, hu, hlt'⟩ := hnext
          obtain rfl := Option.mem_some_iff.mp hu
          omega
        refine ⟨hle, (neverValid_iff h).mpr fun now hnow hvalid => ?_⟩
        have hmeets := hall now hnow
        obtain ⟨u, hu, _, _, _, hnowu⟩ := verdict_valid.mp hvalid
        obtain rfl := Option.mem_some_iff.mp hu
        rw [verdict_none, if_neg (by omega), meets_refused] at hmeets
        exact hmeets hvalid

/-- The seconds behind the two last ones and the two first ones tell the bounds apart. -/
theorem verdict_eq_iff {t s t' s' : ℤ} (h : Bounded (some t) (some s))
    (h' : Bounded (some t') (some s')) :
    (t = t' ∧ (s = s' ∨ t < s ∧ t < s')) ↔ ∀ now, InWindow now →
      verdict (some t) (some s) now = verdict (some t') (some s') now := by
  have ht := h.last_ge t rfl
  have ht_le := h.last_le t rfl
  have hs := h.first_ge s rfl
  have ht' := h'.last_ge t' rfl
  have ht'_le := h'.last_le t' rfl
  have hs' := h'.first_ge s' rfl
  simp only [verdicts_agree]
  constructor
  · rintro ⟨rfl, hstart⟩ now hnow
    exact ⟨Iff.rfl, by omega⟩
  · intro hall
    have hlast : t = t' := by
      rcases lt_trichotomy t t' with hlt | heq | hlt
      · have hnext := (hall (t + 1) ⟨by omega, by omega⟩).1
        omega
      · exact heq
      · have hnext := (hall (t' + 1) ⟨by omega, by omega⟩).1
        omega
    refine ⟨hlast, ?_⟩
    by_cases hopen : s ≤ t
    · have hat := (hall s ⟨hs, by omega⟩).2 hopen
      have hat' := (hall s' ⟨hs', by omega⟩).2 (by omega)
      omega
    · by_cases hopen' : s' ≤ t
      · have hat' := (hall s' ⟨hs', by omega⟩).2 hopen'
        omega
      · omega

/-- Nothing is refused: the verdict is the required one in every second. -/
theorem interchangeable_required {last first : Option ℤ} {t' s' : ℤ} (h : Bounded last first)
    (h' : Bounded (some t') (some s')) :
    Interchangeable last first (some t') (some s') ↔
      ∀ now, InWindow now → verdict last first now = verdict (some t') (some s') now := by
  have hearliest : InWindow earliest := ⟨le_rfl, earliest_le_latest⟩
  cases last with
  | none =>
      constructor
      · exact False.elim
      · exact fun hall => required_some_ne t' s' earliest (hall earliest hearliest).symm
  | some t =>
      cases first with
      | none =>
          constructor
          · rintro ⟨rfl, hlt⟩ now hnow
            have hexpired : t < now := lt_of_lt_of_le hlt hnow.1
            rw [verdict_none, verdict_some, if_pos hexpired, if_pos hexpired]
          · intro hall
            have ht := h.last_ge t rfl
            have ht' := h'.last_ge t' rfl
            have hfirst := hall earliest hearliest
            rw [verdict_none] at hfirst
            by_cases hlt : t < earliest
            · rw [if_pos hlt] at hfirst
              obtain ⟨u, hu, hlt'⟩ := verdict_expired.mp hfirst.symm
              obtain rfl := Option.mem_some_iff.mp hu
              exact ⟨by omega, hlt⟩
            · rw [if_neg hlt] at hfirst
              exact absurd hfirst.symm (required_some_ne t' s' earliest)
      | some s => exact verdict_eq_iff h h'

theorem interchangeable_iff {last first last' first' : Option ℤ} (h : Bounded last first)
    (h' : Bounded last' first') :
    Interchangeable last first last' first' ↔
      ∀ now, InWindow now → Meets (verdict last first now) (verdict last' first' now) := by
  cases last' with
  | none =>
      have hrefused : ∀ now, verdict none first' now = .refused := fun now => rfl
      simp only [hrefused, meets_refused]
      cases last <;> exact neverValid_iff h
  | some t' =>
      cases first' with
      | none => exact interchangeable_refusedStart h ⟨h'.last_ge t' rfl, h'.last_le t' rfl⟩
      | some s' =>
          rw [interchangeable_required h h']
          simp only [meets_eq (required_some_ne t' s' _)]

end Windows
section Readings

/-- The last second at which a claim on the expiry lets the token through. -/
def lastSecond {ν : Type} (limit : ν → ℤ) : Reading ν → Option ℤ
  | .absent => some latest
  | .refused => none
  | .seconds value => some (clampLast (limit value))

/-- The first second at which a claim on the start lets the token through. -/
def firstSecond {ν : Type} (start : ν → ℤ) : Reading ν → Option ℤ
  | .absent => some earliest
  | .refused => none
  | .seconds value => some (clampFirst (start value))

theorem bounded_readings {ν : Type} (limit start : ν → ℤ) (exp nbf : Reading ν) :
    Bounded (lastSecond limit exp) (firstSecond start nbf) := by
  have hlast : ∀ t ∈ lastSecond limit exp, earliest - 1 ≤ t ∧ t ≤ latest := by
    intro t ht
    cases exp with
    | absent =>
        obtain rfl := Option.some.inj ht
        exact ⟨by decide, le_rfl⟩
    | refused => cases ht
    | seconds value =>
        obtain rfl := Option.some.inj ht
        exact clampLast_bounds _
  have hfirst : ∀ s ∈ firstSecond start nbf, earliest ≤ s ∧ s ≤ latest + 1 := by
    intro s hs
    cases nbf with
    | absent =>
        obtain rfl := Option.some.inj hs
        exact ⟨le_rfl, by decide⟩
    | refused => cases hs
    | seconds value =>
        obtain rfl := Option.some.inj hs
        exact clampFirst_bounds _
  exact ⟨fun t ht => (hlast t ht).1, fun t ht => (hlast t ht).2, fun s hs => (hfirst s hs).1,
    fun s hs => (hfirst s hs).2⟩

/-- The bounds of two readings of the raw text. The sum with the leeway wraps around. -/
def scannedLast : Reading ℤ → Option ℤ := lastSecond fun r => wrapInt64 (r + leeway)

def scannedFirst : Reading ℤ → Option ℤ := firstSecond fun r => r - leeway

/-- The bounds of two time claims by their value. -/
def meantLast : Reading ℚ → Option ℤ := lastSecond fun q => ⌊q⌋ + leeway

def meantFirst : Reading ℚ → Option ℤ := firstSecond fun q => ⌈q⌉ - leeway

/-- The verdict on two time claims by their value. -/
def judge (exp nbf : Reading ℚ) (now : ℤ) : Verdict :=
  let started : Verdict :=
    match nbf with
    | .absent => .valid
    | .refused => .refused
    | .seconds q => if now + 60 < q then .early else .valid
  match exp with
  | .absent => started
  | .refused => .refused
  | .seconds q => if q + 60 < now then .expired else started

theorem verdict_meant {exp nbf : Reading ℚ} {now : ℤ} (h : InWindow now) :
    verdict (meantLast exp) (meantFirst nbf) now = judge exp nbf now := by
  have hexpired : ∀ q : ℚ, clampLast (⌊q⌋ + leeway) < now ↔ q + 60 < now := by
    intro q
    have hfloor : ⌊q⌋ < now - 60 ↔ q < ((now - 60 : ℤ) : ℚ) := Int.floor_lt
    rw [clampLast_lt h, leeway, ← lt_sub_iff_add_lt, hfloor, ← lt_sub_iff_add_lt]
    push_cast
    rfl
  have hearly : ∀ q : ℚ, now < clampFirst (⌈q⌉ - leeway) ↔ now + 60 < q := by
    intro q
    have hceil : now + 60 < ⌈q⌉ ↔ ((now + 60 : ℤ) : ℚ) < q := Int.lt_ceil
    rw [lt_clampFirst h, leeway, lt_sub_iff_add_lt, hceil]
    push_cast
    rfl
  have hlatest : ¬ latest < now := not_lt.mpr h.2
  have hearliest : ¬ now < earliest := not_lt.mpr h.1
  cases exp <;> cases nbf <;>
    simp only [verdict, judge, meantLast, meantFirst, lastSecond, firstSecond, hexpired, hearly,
      hlatest, hearliest, if_false]

end Readings

section Receiver

/-- What the checks on the time claims do for each verdict. -/
def Shows : Verdict → Outcome Unit → Prop
  | .refused, o => Refused o
  | .expired, o => o = raise .authentication (ascii "webhook JWT has expired")
  | .early, o => o = raise .authentication (ascii "webhook JWT is not valid yet")
  | .valid, o => o = .ok ()

theorem start_shows {now : ℤ} {claims : Bytes} {nbf : Reading ℤ} (hnbf : Scans claims "nbf" nbf)
    (hwindow : InWindow now) :
    Shows (verdict (some latest) (scannedFirst nbf) now) (do
      let notBefore ← jsonIntegerField claims "nbf"
      throwIf (notBefore.any fun n => wrapInt64 (now + leeway) < n) .authentication
        "webhook JWT is not valid yet") := by
  have hlatest : ¬ latest < now := not_lt.mpr hwindow.2
  have hearliest : ¬ now < earliest := not_lt.mpr hwindow.1
  have hreads := reads_of_scans hnbf
  cases nbf with
  | absent =>
      rw [show jsonIntegerField claims "nbf" = .ok none from hreads]
      simp only [verdict, scannedFirst, firstSecond, if_neg hlatest, if_neg hearliest]
      rfl
  | refused =>
      obtain ⟨message, hmessage, hraise⟩ := hreads
      rw [hraise]
      simp only [verdict, scannedFirst, firstSecond, if_neg hlatest]
      exact ⟨message, hmessage, rfl⟩
  | seconds r =>
      rw [show jsonIntegerField claims "nbf" = .ok (some r) from hreads]
      have hsum : wrapInt64 (now + leeway) = now + leeway := by
        apply wrapInt64_eq
        unfold InWindow earliest latest at hwindow
        unfold InInt64 leeway
        omega
      have hstart : now < clampFirst (r - leeway) ↔ now + leeway < r := by
        rw [lt_clampFirst hwindow, lt_sub_iff_add_lt]
      simp only [verdict, scannedFirst, firstSecond, if_neg hlatest, hstart]
      change Shows _ (throwIf (decide (wrapInt64 (now + leeway) < r)) _ _)
      rw [hsum]
      by_cases hearly : now + leeway < r
      · rw [if_pos hearly, decide_eq_true hearly]
        rfl
      · rw [if_neg hearly, decide_eq_false hearly]
        rfl

theorem checkTimes_shows {clock : SystemClock} {now : TimePoint} {claims : Bytes}
    {exp nbf : Reading ℤ} (hexp : Scans claims "exp" exp) (hnbf : Scans claims "nbf" nbf)
    (hwindow : InWindow (clock.secondsSinceEpoch now)) :
    Shows (verdict (scannedLast exp) (scannedFirst nbf) (clock.secondsSinceEpoch now))
      (checkTimes clock now claims) := by
  have hstart := start_shows hnbf hwindow
  have hreads := reads_of_scans hexp
  unfold checkTimes
  cases exp with
  | absent =>
      rw [show jsonIntegerField claims "exp" = .ok none from hreads]
      exact hstart
  | refused =>
      obtain ⟨message, hmessage, hraise⟩ := hreads
      rw [hraise]
      exact ⟨message, hmessage, rfl⟩
  | seconds r =>
      rw [show jsonIntegerField claims "exp" = .ok (some r) from hreads]
      have hlast := clampLast_lt (t := wrapInt64 (r + leeway)) hwindow
      change Shows _ (throwIf (decide (clock.secondsSinceEpoch now > wrapInt64 (r + leeway))) _ _ >>=
        fun _ => _)
      by_cases hexpired : wrapInt64 (r + leeway) < clock.secondsSinceEpoch now
      · have hverdict : verdict (scannedLast (.seconds r)) (scannedFirst nbf)
            (clock.secondsSinceEpoch now) = .expired :=
          verdict_expired.mpr ⟨_, rfl, hlast.mpr hexpired⟩
        rw [hverdict, decide_eq_true hexpired]
        rfl
      · have hverdict : verdict (scannedLast (.seconds r)) (scannedFirst nbf)
            (clock.secondsSinceEpoch now) =
              verdict (some latest) (scannedFirst nbf) (clock.secondsSinceEpoch now) := by
          simp only [verdict, scannedLast, lastSecond, hlast, if_neg hexpired,
            if_neg (not_lt.mpr hwindow.2)]
        rw [hverdict, decide_eq_false hexpired]
        exact hstart

/-- The member of the claims object with this name. -/
def topLevel (claims : Bytes) (name : String) : Option Json :=
  match Json.parse claims with
  | some (.object members) => members.lookup (ascii name)
  | _ => none

/-- What a time claim means. An integer below `2 ^ 62` counts by its value. Another number may
count by its value too or be refused, as the policy has it, and anything else is refused. -/
def meaning (policy : Number → Bool) : Option Json → Reading ℚ
  | none => .absent
  | some (.number n) =>
    if n.IsInteger ∧ |n.value| < 2 ^ 62 ∨ policy n then .seconds n.value else .refused
  | some _ => .refused

variable (services : Services) (body : Bytes)

/-- The result of the receiver for each verdict on the time claims. -/
def Follows : Verdict → Outcome WebhookEvent → Prop
  | .refused, result => ∃ message, result = raise .authentication message
  | .expired, result => result = raise .authentication (ascii "webhook JWT has expired")
  | .early, result => result = raise .authentication (ascii "webhook JWT is not valid yet")
  | .valid, result => result = parseBody services body

theorem parseBody_ne (message : Bytes) :
    parseBody services body ≠ raise .authentication message := by
  unfold parseBody
  cases services.parseEvent body with
  | error status => simp [raise]
  | ok parsed => simp [raise]

theorem raise_inj {α : Type} {code : ErrorCode} {message message' : Bytes} :
    (raise code message : Outcome α) = raise code message' ↔ message = message' := by
  simp [raise]

theorem follows_raise {required : Verdict} {message : Bytes} :
    Follows services body required (raise .authentication message) ↔
      required = .refused ∨
      required = .expired ∧ message = ascii "webhook JWT has expired" ∨
      required = .early ∧ message = ascii "webhook JWT is not valid yet" := by
  cases required with
  | refused => exact iff_of_true ⟨message, rfl⟩ (Or.inl rfl)
  | expired => simp [Follows, raise_inj]
  | early => simp [Follows, raise_inj]
  | valid => exact iff_of_false (fun h => parseBody_ne services body message h.symm) (by simp)

theorem follows_parseBody {required : Verdict} :
    Follows services body required (parseBody services body) ↔ required = .valid := by
  have hne := parseBody_ne services body
  cases required with
  | refused => exact iff_of_false (fun ⟨message, h⟩ => hne message h) (by simp)
  | expired => exact iff_of_false (hne _) (by simp)
  | early => exact iff_of_false (hne _) (by simp)
  | valid => exact iff_of_true rfl rfl

theorem follows_iff {v required : Verdict} {o : Outcome Unit} (h : Shows v o) :
    Follows services body required (o >>= fun _ => parseBody services body) ↔
      Meets v required := by
  have hmessages : ascii "webhook JWT has expired" ≠ ascii "webhook JWT is not valid yet" := by
    decide
  cases v with
  | refused =>
      obtain ⟨message, hmessage, rfl⟩ := h
      have hother : ∀ message ∈ refusals, ascii message ≠ ascii "webhook JWT has expired" ∧
          ascii message ≠ ascii "webhook JWT is not valid yet" := by decide
      obtain ⟨hexpired, hearly⟩ := hother message hmessage
      apply (follows_raise services body).trans
      cases required <;> simp [Meets, hexpired, hearly]
  | expired =>
      obtain rfl := h
      apply (follows_raise services body).trans
      cases required <;> simp [Meets, hmessages]
  | early =>
      obtain rfl := h
      apply (follows_raise services body).trans
      cases required <;> simp [Meets, hmessages.symm]
  | valid =>
      obtain rfl := h
      apply (follows_parseBody services body).trans
      cases required <;> simp [Meets]

variable (policy : Number → Bool) (provider : Bytes → Outcome Bytes) (authorization claims : Bytes)

/-- At every second that the clock can show, the receiver judges the token by the JSON meaning of
its time claims. -/
structure FollowsTimeClaims : Prop where
  follows : ∀ (clock : SystemClock) (now : TimePoint),
    InInt64 (clock.secondsSinceEpoch now + leeway) →
    Follows services body
      (judge (meaning policy (topLevel claims "exp")) (meaning policy (topLevel claims "nbf"))
        (clock.secondsSinceEpoch now))
      ((receiveAt services clock now body authorization).result provider)

/-- The bounds that the scan finds in the raw text can stand in for those that the members of the
claims object mean. -/
def ScanAgrees : Prop :=
  ∃ exp nbf, Scans claims "exp" exp ∧ Scans claims "nbf" nbf ∧
    Interchangeable (scannedLast exp) (scannedFirst nbf)
      (meantLast (meaning policy (topLevel claims "exp")))
      (meantFirst (meaning policy (topLevel claims "nbf")))

theorem inWindow_iff (clock : SystemClock) (now : TimePoint) :
    InInt64 (clock.secondsSinceEpoch now + leeway) ↔ InWindow (clock.secondsSinceEpoch now) := by
  have hrange := clock.inInt64_secondsSinceEpoch now
  unfold InInt64 at hrange
  unfold InInt64 InWindow earliest latest leeway
  omega

/-- A clock that ticks once a second shows every second of the window. -/
theorem forall_inWindow {P : ℤ → Prop} :
    (∀ (clock : SystemClock) (now : TimePoint), InInt64 (clock.secondsSinceEpoch now + leeway) →
      P (clock.secondsSinceEpoch now)) ↔ ∀ now, InWindow now → P now := by
  constructor
  · intro hall now hnow
    have hrange : InInt64 (now * (1 : ℕ)) := by
      unfold InWindow earliest latest at hnow
      unfold InInt64
      omega
    have hseconds := SystemClock.secondsSinceEpoch_timePoint ⟨1, Nat.one_pos⟩ hrange
    have hat := hall ⟨1, Nat.one_pos⟩ (SystemClock.timePoint ⟨1, Nat.one_pos⟩ now)
    rw [inWindow_iff, hseconds] at hat
    exact hat hnow
  · exact fun hall clock now hnow => hall _ ((inWindow_iff clock now).mp hnow)

variable {services body provider authorization claims}

theorem receiveClaims_checked {clock : SystemClock} {now : TimePoint}
    (h : checkBody services claims body = .ok ()) :
    receiveClaims services clock now body claims =
      checkTimes clock now claims >>= fun _ => parseBody services body := by
  unfold receiveClaims
  rw [h]
  rfl

/-- A correctly signed token with a matching checksum is judged by the JSON meaning of its time
claims exactly when the scan of the raw text agrees with it. -/
theorem followsTimeClaims_iff {first second third issuer : Bytes}
    (hsegments : Segments (stripBearer authorization) first second third)
    (hverified : Verified services provider first second third issuer claims)
    (hchecksum : checkBody services claims body = .ok ()) :
    FollowsTimeClaims services body policy provider authorization claims ↔
      ScanAgrees policy claims := by
  have hauth := run_authenticate.mpr ⟨first, second, third, issuer, hsegments, rfl, hverified⟩
  have hresult : ∀ (clock : SystemClock) (now : TimePoint),
      (receiveAt services clock now body authorization).result provider =
        checkTimes clock now claims >>= fun _ => parseBody services body := by
    intro clock now
    rw [receiveAt, result, run_bind, hauth, ← receiveClaims_checked hchecksum]
    rfl
  -- Whatever the two scans read, following the claims means to meet their verdict everywhere.
  have hfollows : ∀ {exp nbf : Reading ℤ}, Scans claims "exp" exp → Scans claims "nbf" nbf →
      (FollowsTimeClaims services body policy provider authorization claims ↔
        Interchangeable (scannedLast exp) (scannedFirst nbf)
          (meantLast (meaning policy (topLevel claims "exp")))
          (meantFirst (meaning policy (topLevel claims "nbf")))) := by
    intro exp nbf hexp hnbf
    have hscanned : Bounded (scannedLast exp) (scannedFirst nbf) := bounded_readings _ _ exp nbf
    have hmeant : Bounded (meantLast (meaning policy (topLevel claims "exp")))
        (meantFirst (meaning policy (topLevel claims "nbf"))) := bounded_readings _ _ _ _
    rw [interchangeable_iff hscanned hmeant, ← forall_inWindow]
    refine Iff.trans ⟨fun h => h.follows, fun h => ⟨h⟩⟩ ?_
    apply forall_congr'
    intro clock
    apply forall_congr'
    intro now
    apply forall_congr'
    intro hrange
    have hwindow := (inWindow_iff clock now).mp hrange
    rw [verdict_meant hwindow, hresult clock now]
    exact follows_iff services body (checkTimes_shows hexp hnbf hwindow)
  constructor
  · intro h
    obtain ⟨exp, hexp, -⟩ := scan_jsonIntegerField claims "exp"
    obtain ⟨nbf, hnbf, -⟩ := scan_jsonIntegerField claims "nbf"
    exact ⟨exp, nbf, hexp, hnbf, (hfollows hexp hnbf).mp h⟩
  · rintro ⟨exp, nbf, hexp, hnbf, hagree⟩
    exact (hfollows hexp hnbf).mpr hagree

theorem scans_of_ok {text : Bytes} {name : String} {r : ℤ}
    (h : jsonIntegerField text name = .ok (some r)) : Scans text name (.seconds r) := by
  obtain ⟨reading, hscans, hreads⟩ := scan_jsonIntegerField text name
  cases reading with
  | absent =>
      rw [Reads, h] at hreads
      cases hreads
  | refused =>
      obtain ⟨message, _, hraise⟩ := hreads
      rw [h] at hraise
      cases hraise
  | seconds s =>
      rw [Reads, h] at hreads
      obtain rfl := Option.some.inj (Except.ok.inj hreads)
      exact hscans

theorem scanAgrees_of_bounds {exp nbf : Reading ℤ} {exp' nbf' : Reading ℚ}
    (hexp : Scans claims "exp" exp) (hnbf : Scans claims "nbf" nbf)
    (hexp' : meaning policy (topLevel claims "exp") = exp')
    (hnbf' : meaning policy (topLevel claims "nbf") = nbf')
    (h : Interchangeable (scannedLast exp) (scannedFirst nbf) (meantLast exp') (meantFirst nbf')) :
    ScanAgrees policy claims := by
  subst hexp' hnbf'
  exact ⟨exp, nbf, hexp, hnbf, h⟩

theorem FollowsTimeClaims.expired
    (h : FollowsTimeClaims services body policy provider authorization claims) {q : ℚ}
    (hexp : meaning policy (topLevel claims "exp") = .seconds q) (clock : SystemClock)
    (now : TimePoint) (hrange : InInt64 (clock.secondsSinceEpoch now + leeway))
    (hpast : q + 60 < clock.secondsSinceEpoch now) :
    (receiveAt services clock now body authorization).result provider =
      raise .authentication (ascii "webhook JWT has expired") := by
  have hnow := h.follows clock now hrange
  simp only [hexp, judge, if_pos hpast] at hnow
  exact hnow

def sampleProvider (key : Bytes) : Outcome Bytes :=
  .ok (singleKey (ascii "key") (ascii "secret") key)

/-- A token whose time claims stand first under their plain names. -/
theorem followsTimeClaims_sample :
    FollowsTimeClaims sampleServices sampleBody (fun _ => false) sampleProvider
      (ascii "Bearer " ++ sampleJwt) sampleClaims := by
  have hauth : run sampleProvider (authenticate sampleServices (ascii "Bearer " ++ sampleJwt)) =
      ([ascii "key"], .ok sampleClaims) := by decide +kernel
  obtain ⟨first, second, third, issuer, hsegments, _, hverified⟩ := run_authenticate.mp hauth
  have hchecksum : checkBody sampleServices sampleClaims sampleBody = .ok () := by decide +kernel
  have hexp : meaning (fun _ => false) (topLevel sampleClaims "exp") = .seconds 1700000300 := by
    decide +kernel
  have hnbf : meaning (fun _ => false) (topLevel sampleClaims "nbf") = .seconds 1700000000 := by
    decide +kernel
  have hscan : ScanAgrees (fun _ => false) sampleClaims := by
    have hexp' : Scans sampleClaims "exp" (.seconds 1700000300) := scans_of_ok (by decide +kernel)
    have hnbf' : Scans sampleClaims "nbf" (.seconds 1700000000) := scans_of_ok (by decide +kernel)
    apply scanAgrees_of_bounds _ hexp' hnbf' hexp hnbf
    exact ⟨by decide +kernel, Or.inl (by decide +kernel)⟩
  exact (followsTimeClaims_iff (fun _ => false) hsegments hverified hchecksum).mpr hscan

/-- Claims that expire at second 1, with an escape in the name of the claim. -/
def escapedClaims : Bytes :=
  ascii "\x7b\"iss\":\"key\",\"\\u0065xp\":1,\"sha256\":\"" ++
    Crypto.base64Encode sampleDigest ++ ascii "\"\x7d"

/-- The digest that signs the escaped claims with the secret `secret`. -/
def escapedMac : Bytes :=
  [75, 199, 70, 146, 200, 94, 189, 84, 83, 187, 56, 84, 123, 172, 132, 136, 27, 239, 118, 122, 97,
    177, 102, 72, 128, 72, 148, 182, 146, 184, 43, 0]

def escapedJwt : Bytes :=
  Crypto.base64UrlEncode (ascii "\x7b\"alg\":\"HS256\",\"typ\":\"JWT\"\x7d") ++ [0x2e] ++
    Crypto.base64UrlEncode escapedClaims ++ [0x2e] ++ Crypto.base64UrlEncode escapedMac

def escapedServices : Services :=
  { sampleServices with backend := .constant sampleDigest escapedMac }

theorem meaning_plain {item : Option Json} {k : ℤ}
    (h : (item.any fun
      | .number n => decide (n.IsInteger ∧ n.value = k ∧ |n.value| < 2 ^ 62)
      | _ => false) = true) (policy : Number → Bool) :
    meaning policy item = .seconds (k : ℚ) := by
  cases item with
  | none => cases h
  | some j =>
      cases j with
      | number n =>
          obtain ⟨hinteger, hvalue, hsmall⟩ := of_decide_eq_true h
          rw [← hvalue]
          exact if_pos (Or.inl ⟨hinteger, hsmall⟩)
      | _ => cases h

/-- The receiver accepts the token with the escaped claims long after it has expired, whatever it
does with the claims that are no small integers. -/
theorem escapedExpiry_accepted :
    run sampleProvider (authenticate escapedServices escapedJwt) =
      ([ascii "key"], .ok escapedClaims) ∧
    checkBody escapedServices escapedClaims sampleBody = .ok () ∧
    (∃ members, Json.parse escapedClaims = some (.object members) ∧
      (Json.object members).DistinctNames) ∧
    ∀ policy, ¬ FollowsTimeClaims escapedServices sampleBody policy sampleProvider escapedJwt
      escapedClaims := by
  refine ⟨by decide +kernel, by decide +kernel, ?_, fun policy hfollows => ?_⟩
  · refine ⟨[(ascii "iss", .string (ascii "key")), (ascii "exp", .number (.ofInt 1)),
      (ascii "sha256", .string (Crypto.base64Encode sampleDigest))], rfl, by decide, ?_⟩
    exact ⟨trivial, trivial, trivial, trivial⟩
  have hexp : meaning policy (topLevel escapedClaims "exp") = .seconds ((1 : ℤ) : ℚ) :=
    meaning_plain (by decide +kernel) policy
  have hrejected := hfollows.expired policy hexp .nanoseconds sampleNow (by decide +kernel)
    (by decide +kernel)
  have haccepted : (receiveAt escapedServices .nanoseconds sampleNow sampleBody escapedJwt).result
      sampleProvider = .ok sampleEvent := by decide +kernel
  rw [haccepted] at hrejected
  cases hrejected

end Receiver
end LivekitServer.Webhook
