import LivekitServer.ClientContext

/-!
# The credentials of a client

What the options set is never completed from the environment: `chosenCredentials` says where the
three strings come from, and the two fallbacks of the constructor compute it. A resolved access
token stands in every request as it is.
-/

namespace LivekitServer
namespace ClientContext

/-- Explicit credentials, else the token of the environment, else its key and secret together. -/
def chosenCredentials (env : Environment) (explicit : Credentials) : Credentials :=
  if explicit ≠ ⟨[], [], []⟩ then explicit
  else if env.livekitToken ≠ [] then ⟨[], [], env.livekitToken⟩
  else ⟨env.livekitApiKey, env.livekitApiSecret, []⟩

section Resolving

variable {c : Credentials}

theorem Credentials.isEmpty_iff : c.isEmpty = true ↔ c = ⟨[], [], []⟩ := by
  obtain ⟨apiKey, apiSecret, accessToken⟩ := c
  simp [Credentials.isEmpty, and_comm, and_left_comm]

theorem resolveCredentials_of_explicit (env : Environment) (h : c ≠ ⟨[], [], []⟩) :
    resolveCredentials env c = c := by
  have hset : c.isEmpty ≠ true := fun hempty => h (Credentials.isEmpty_iff.mp hempty)
  rw [resolveCredentials]
  simp only [if_neg hset]

/-- The second fallback is taken when the first one found no token. -/
theorem resolveCredentials_eq (env : Environment) (c : Credentials) :
    resolveCredentials env c = chosenCredentials env c := by
  by_cases h : c = ⟨[], [], []⟩
  · subst h
    rw [chosenCredentials, if_neg (not_not_intro rfl)]
    by_cases htoken : env.livekitToken = []
    · rw [if_neg (not_not_intro htoken)]
      simp [resolveCredentials, Credentials.isEmpty, htoken]
    · rw [if_pos htoken]
      simp [resolveCredentials, Credentials.isEmpty, htoken]
  · rw [resolveCredentials_of_explicit env h, chosenCredentials, if_pos h]

end Resolving

section Construction

variable {τ : Type} {env : Environment} {create : Outcome τ} {options : ApiOptions τ}

theorem normalizeUrl_nil (url : Bytes) : normalizeUrl [] ≠ .ok url := by
  intro h
  cases h

/-- With explicit credentials only the URL is read from the environment. -/
theorem new_congr {env' : Environment} (h : explicit options ≠ ⟨[], [], []⟩)
    (hurl : env.livekitUrl = env'.livekitUrl) : new env create options = new env' create options := by
  have hresolve : resolveUrl env options.url = resolveUrl env' options.url := by
    rw [resolveUrl, resolveUrl, hurl]
  rw [new, new, hresolve, resolveCredentials_of_explicit env h,
    resolveCredentials_of_explicit env' h]

theorem exists_new_iff (hcreate : options.transport = none → ∃ transport, create = .ok transport) :
    (∃ context, new env create options = .ok context) ↔
      (∃ url, normalizeUrl (resolveUrl env options.url) = .ok url) ∧
        (chosenCredentials env (explicit options)).Complete ∧ 0 < options.timeout := by
  constructor
  · rintro ⟨context, h⟩
    obtain ⟨-, hnormal, hcredentials, hcomplete, htimeout, -, -⟩ := new_ok.mp h
    rw [resolveCredentials_eq] at hcredentials
    exact ⟨⟨context.url, hnormal⟩, hcredentials ▸ hcomplete, htimeout⟩
  · rintro ⟨⟨url, hnormal⟩, hcomplete, htimeout⟩
    have hurl : resolveUrl env options.url ≠ [] := by
      intro hempty
      rw [hempty] at hnormal
      exact normalizeUrl_nil url hnormal
    obtain ⟨transport, htransport⟩ :
        ∃ transport, options.transport.elim create .ok = .ok transport := by
      cases hgiven : options.transport with
      | none => exact hcreate hgiven
      | some transport => exact ⟨transport, rfl⟩
    rw [← resolveCredentials_eq] at hcomplete
    refine ⟨⟨url, (resolveCredentials env (explicit options)).apiKey,
      (resolveCredentials env (explicit options)).apiSecret,
      (resolveCredentials env (explicit options)).accessToken, options.timeout, transport⟩,
      new_ok.mpr ⟨hurl, hnormal, rfl, hcomplete, htimeout, rfl, htransport⟩⟩

end Construction

section Bearing

variable {τ ρ : Type} {surroundings : Surroundings} {context : ClientContext τ}

/-- The request has one `Authorization` header, with this token. -/
def Bears (token : Bytes) (request : HttpRequest) : Prop :=
  request.headers.filter (·.1 = ascii "Authorization") =
    [(ascii "Authorization", ascii "Bearer " ++ token)]

theorem tokenFor_of_accessToken (h : context.accessToken ≠ []) (grant : RequestGrant) :
    tokenFor surroundings context grant = .ok context.accessToken := if_pos h

theorem bears_callRequest {service method : String} {serialized : Option Bytes}
    {grant : RequestGrant} {token : Bytes} {request : HttpRequest}
    (htoken : tokenFor surroundings context grant = .ok token)
    (h : callRequest surroundings context service method serialized grant = .ok request) :
    Bears token request := by
  obtain ⟨token', random, body, htoken', -, -, rfl⟩ := callRequest_ok.mp h
  obtain rfl := Except.ok.inj (htoken.symm.trans htoken')
  simp [Bears, callHeaders, ascii]

/-- A call sends at most the request that it builds. -/
theorem callsAtMost_call {service method : String} {serialized : Option Bytes}
    {parse : Bytes → Option ρ} {grant : RequestGrant} {allowed : τ × HttpRequest → Prop}
    (h : ∀ request, callRequest surroundings context service method serialized grant =
      .ok request → allowed (context.transport, request)) :
    (call surroundings context service method serialized parse grant).CallsAtMost allowed 1 := by
  unfold call
  cases hrequest : callRequest surroundings context service method serialized grant with
  | error e => exact Program.callsAtMost_done 1 _
  | ok request =>
      exact (Program.callsAtMost_perform (h request hrequest)).bind fun response =>
        Program.callsAtMost_done 0 _

end Bearing

section Separation

variable {τ : Type}

/-- How a client takes its credentials, in every environment. -/
structure KeepsCredentials (create : Outcome τ) (options : ApiOptions τ) : Prop where
  noninterference : explicit options ≠ ⟨[], [], []⟩ → ∀ env env' : Environment,
    env.livekitUrl = env'.livekitUrl → new env create options = new env' create options
  unmixed : ∀ env context, new env create options = .ok context →
    context.credentials = chosenCredentials env (explicit options)
  constructs : (options.transport = none → ∃ transport, create = .ok transport) → ∀ env,
    ((∃ context, new env create options = .ok context) ↔
      (∃ url, normalizeUrl (resolveUrl env options.url) = .ok url) ∧
        (chosenCredentials env (explicit options)).Complete ∧ 0 < options.timeout)
  bears : ∀ env context, new env create options = .ok context → context.accessToken ≠ [] →
    ∀ (surroundings : Surroundings) (grant : RequestGrant),
      tokenFor surroundings context grant = .ok context.accessToken ∧
        ∀ (ρ : Type) (service method : String) (serialized : Option Bytes)
          (parse : Bytes → Option ρ),
          (call surroundings context service method serialized parse grant).CallsAtMost
            (fun sent => Bears context.accessToken sent.2) 1

theorem keepsCredentials (create : Outcome τ) (options : ApiOptions τ) :
    KeepsCredentials create options where
  noninterference h _ _ hurl := new_congr h hurl
  unmixed env context h := by
    rw [← resolveCredentials_eq]
    exact (new_ok.mp h).2.2.1
  constructs hcreate _ := exists_new_iff hcreate
  bears env context _ htoken surroundings grant :=
    ⟨tokenFor_of_accessToken htoken grant, fun _ _ _ _ _ =>
      callsAtMost_call fun _ h => bears_callRequest (tokenFor_of_accessToken htoken grant) h⟩

end Separation

end ClientContext
end LivekitServer
