import LivekitServer.AccessToken
import LivekitServer.JsonWriter

/-!
# The claims of a token as one JSON object

`claimsText_eq_write` says that the text which the builder assembles by hand is the written form
of one object, `claims`, in every locale. Each optional piece of the encoder is a list of members
of that object, and the `first` flag is what joins such lists with commas.
-/

namespace LivekitServer.AccessToken
open Json JsonText

section Members

def boolMember (name : String) (value includeFalse : Bool) : Members :=
  if !value && !includeFalse then [] else [(ascii name, .bool value)]

def optionalMember (name : String) (value : Option Bool) : Members :=
  match value with
  | none => []
  | some value => [(ascii name, .bool value)]

def stringMember (name : String) (value : Bytes) : Members :=
  if value = [] then [] else [(ascii name, .string value)]

def sourcesMember (sources : List Bytes) : Members :=
  if sources = [] then [] else [(ascii "canPublishSources", .array (sources.map .string))]

def videoMembers (grant : VideoGrant) : Members :=
  boolMember "roomCreate" grant.roomCreate false ++ boolMember "roomList" grant.roomList false ++
  boolMember "roomRecord" grant.roomRecord false ++ boolMember "roomAdmin" grant.roomAdmin false ++
  boolMember "roomJoin" grant.roomJoin false ++ stringMember "room" grant.room ++
  stringMember "destinationRoom" grant.destinationRoom ++
  boolMember "ingressAdmin" grant.ingressAdmin false ++
  optionalMember "canPublish" grant.canPublish ++
  optionalMember "canSubscribe" grant.canSubscribe ++
  optionalMember "canPublishData" grant.canPublishData ++
  optionalMember "canUpdateOwnMetadata" grant.canUpdateOwnMetadata ++
  sourcesMember grant.canPublishSources ++ boolMember "hidden" grant.hidden false ++
  boolMember "recorder" grant.recorder false ++ boolMember "agent" grant.agent false

def sipMembers (grant : SipGrant) : Members :=
  boolMember "admin" grant.admin false ++ boolMember "call" grant.call false

def agentMembers (grant : AgentGrant) : Members :=
  boolMember "admin" grant.admin false ++
    boolMember "simulationAdmin" grant.simulationAdmin false

def attributesMember (attributes : StringMap) : Members :=
  if attributes.entries = [] then []
  else [(ascii "attributes", .object (attributes.entries.map fun e => (e.1, .string e.2)))]

def grantMember {γ : Type} (name : String) (members : γ → Members) (grant : Option γ) : Members :=
  match grant with
  | none => []
  | some grant => [(ascii name, .object (members grant))]

def timeMembers (issuedAt expiresAt : ℤ) : Members :=
  [(ascii "nbf", .number (.ofInt issuedAt)), (ascii "exp", .number (.ofInt expiresAt)),
    (ascii "iat", .number (.ofInt issuedAt))]

/-- The claims in the order in which they are written. -/
def claims (token : AccessToken) (issuedAt expiresAt : ℤ) : Members :=
  (ascii "iss", .string token.apiKey) :: timeMembers issuedAt expiresAt ++
  stringMember "sub" token.identity ++ stringMember "name" token.name ++
  stringMember "metadata" token.metadata ++ attributesMember token.attributes ++
  grantMember "video" videoMembers token.videoGrant ++
  grantMember "sip" sipMembers token.sipGrant ++
  grantMember "agent" agentMembers token.agentGrant

end Members

section Text

variable (loc : Locale)

def writer : Writer where
  escape := escapeJson loc
  number n := loc.insertInteger (if n.negative then -n.whole else n.whole)

@[simp] theorem writer_escape (s : Bytes) : (writer loc).escape s = escapeJson loc s := rfl

@[simp] theorem writer_number_ofInt (n : ℤ) :
    (writer loc).number (.ofInt n) = loc.insertInteger n := by
  have hn : (if (Number.ofInt n).negative then -((Number.ofInt n).whole : ℤ)
      else (Number.ofInt n).whole) = n := by
    simp only [Number.ofInt, decide_eq_true_eq]
    split_ifs <;> omega
  exact congrArg loc.insertInteger hn

/-- ASCII text that stands for itself inside a JSON string. -/
def Plain (s : Bytes) : Prop := ∀ b ∈ s, b < 0x80 ∧ ¬ b < 0x20 ∧ b ≠ 0x22 ∧ b ≠ 0x5c

instance (s : Bytes) : Decidable (Plain s) := List.decidableBAll _ s

theorem escapeByte_plain {b : UInt8} (h : ¬ b < 0x20 ∧ b ≠ 0x22 ∧ b ≠ 0x5c) :
    escapeByte loc b = [b] := by
  obtain ⟨hlow, hquote, hback⟩ := h
  have hcontrol : ∀ c : UInt8, c < 0x20 → b ≠ c := fun c hc he => hlow (he ▸ hc)
  simp only [escapeByte, if_neg hquote, if_neg hback, if_neg hlow,
    if_neg (hcontrol 0x08 (by decide)), if_neg (hcontrol 0x0c (by decide)),
    if_neg (hcontrol 0x0a (by decide)), if_neg (hcontrol 0x0d (by decide)),
    if_neg (hcontrol 0x09 (by decide))]

theorem escapeJson_plain {s : Bytes} (h : Plain s) : escapeJson loc s = s := by
  induction s with
  | nil => rfl
  | cons b s ih =>
      have hb := escapeByte_plain loc (h b (List.mem_cons_self ..)).2
      have hs : escapeJson loc s = s := ih fun c hc => h c (List.mem_cons_of_mem b hc)
      unfold escapeJson at *
      rw [List.flatMap_cons, hb, hs, List.singleton_append]

theorem token_string (s : Bytes) :
    (writer loc).token (.string s) = 0x22 :: (escapeJson loc s ++ [0x22]) := rfl

theorem writeMember_plain {name : String} (h : Plain (ascii name)) (item : Json) :
    (writer loc).writeMember (ascii name, item) =
      [0x22] ++ ascii name ++ ascii "\":" ++ (writer loc).write item := by
  have hcolon : ascii "\":" = [0x22, 0x3a] := rfl
  simp [Writer.writeMember, token_string, escapeJson_plain loc h, hcolon]

theorem write_string (s : Bytes) :
    (writer loc).write (.string s) = [0x22] ++ escapeJson loc s ++ [0x22] := by
  simp [Writer.write, tokens, token_string]

theorem write_bool (b : Bool) :
    (writer loc).write (.bool b) = ascii (if b then "true" else "false") := by
  simp [Writer.write, tokens, Writer.token]

/-- Members appended to the stream, each with a comma before it unless it is the first. -/
def extend (json : MemberStream) (members : Members) : MemberStream :=
  members.foldl
    (fun json m => ⟨json.text ++ (comma json.first ++ (writer loc).writeMember m), false⟩) json

theorem extend_append (json : MemberStream) (front back : Members) :
    extend loc (extend loc json front) back = extend loc json (front ++ back) :=
  List.foldl_append.symm

theorem extend_text (text : Bytes) (members : Members) :
    (extend loc ⟨text, false⟩ members).text =
      text ++ members.flatMap fun m => 0x2c :: (writer loc).writeMember m := by
  induction members generalizing text with
  | nil => simp [extend]
  | cons m members ih =>
      have hi := ih (text ++ (comma false ++ (writer loc).writeMember m))
      simp only [extend, List.foldl_cons] at hi ⊢
      rw [hi]
      simp [comma]

/-- Started with the flag set, the stream holds the members joined with commas. -/
theorem extend_first (text : Bytes) (members : Members) :
    (extend loc ⟨text, true⟩ members).text = text ++ commaJoin (writer loc).writeMember members := by
  cases members with
  | nil => simp [extend, commaJoin]
  | cons m members =>
      have hrest := extend_text loc (text ++ (comma true ++ (writer loc).writeMember m)) members
      simp only [extend, List.foldl_cons] at hrest ⊢
      rw [hrest]
      simp [comma, commaJoin]

theorem object_text (members : Members) :
    (extend loc ⟨[0x7b], true⟩ members).text ++ [0x7d] = (writer loc).write (.object members) := by
  rw [extend_first, Writer.write_object]
  simp

theorem addBool_eq (json : MemberStream) {name : String} (value includeFalse : Bool)
    (h : Plain (ascii name)) :
    addBool json name value includeFalse =
      extend loc json (boolMember name value includeFalse) := by
  unfold addBool boolMember
  by_cases hskip : (!value && !includeFalse) = true
  · rw [if_pos hskip, if_pos hskip]
    rfl
  · rw [if_neg hskip, if_neg hskip]
    simp [extend, writeMember_plain loc h, write_bool]

theorem addOptional_eq (json : MemberStream) {name : String} (value : Option Bool)
    (h : Plain (ascii name)) :
    addOptional json name value = extend loc json (optionalMember name value) := by
  cases value with
  | none => rfl
  | some value => simp [addOptional, addBool, optionalMember, extend, writeMember_plain loc h,
      write_bool]

theorem addString_eq (json : MemberStream) {name : String} (value : Bytes)
    (h : Plain (ascii name)) :
    addString loc json name value = extend loc json (stringMember name value) := by
  have hopen : ascii "\":\"" = ascii "\":" ++ [0x22] := rfl
  unfold addString stringMember
  split_ifs
  · rfl
  · simp [extend, writeMember_plain loc h, write_string, hopen]

theorem sourceList_eq (first : Bool) (sources : List Bytes) :
    sourceList loc first sources =
      (itemTokens first (sources.map .string)).flatMap (writer loc).token := by
  induction sources generalizing first with
  | nil => rfl
  | cons source sources ih =>
      cases first <;>
        simp [sourceList, itemTokens, separator, comma, tokens, ih, Writer.token]

theorem addSources_eq (json : MemberStream) (sources : List Bytes) :
    addSources loc json sources = extend loc json (sourcesMember sources) := by
  have hname : Plain (ascii "canPublishSources") := by decide
  have hopen : ascii "\"canPublishSources\":[" =
    [0x22] ++ ascii "canPublishSources" ++ ascii "\":" ++ [0x5b] := rfl
  have hlist : (writer loc).write (.array (sources.map .string)) =
      0x5b :: (sourceList loc true sources ++ [0x5d]) := by
    rw [sourceList_eq]
    simp [Writer.write, tokens, Writer.token]
  unfold addSources sourcesMember
  split_ifs
  · rfl
  · simp [extend, writeMember_plain loc hname, hlist, hopen]

theorem videoGrantJson_eq (grant : VideoGrant) :
    videoGrantJson loc grant = (writer loc).write (.object (videoMembers grant)) := by
  rw [← object_text]
  simp (disch := decide) only [videoGrantJson, addBool_eq loc, addString_eq, addOptional_eq loc,
    addSources_eq, extend_append, videoMembers, List.append_assoc]

theorem sipGrantJson_eq (grant : SipGrant) :
    sipGrantJson grant = (writer loc).write (.object (sipMembers grant)) := by
  rw [← object_text]
  simp (disch := decide) only [sipGrantJson, addBool_eq loc, extend_append, sipMembers]

theorem agentGrantJson_eq (grant : AgentGrant) :
    agentGrantJson grant = (writer loc).write (.object (agentMembers grant)) := by
  rw [← object_text]
  simp (disch := decide) only [agentGrantJson, addBool_eq loc, extend_append, agentMembers]

/-- Members with a comma before each, as they follow the first claim. -/
def followers (members : Members) : Bytes :=
  members.flatMap fun m => 0x2c :: (writer loc).writeMember m

theorem stringClaim_eq {name : String} (value : Bytes) (h : Plain (ascii name)) :
    stringClaim loc name value = followers loc (stringMember name value) := by
  have hstart : ascii ",\"" = [0x2c] ++ [0x22] := rfl
  have hopen : ascii "\":\"" = ascii "\":" ++ [0x22] := rfl
  unfold stringClaim stringMember followers
  split_ifs
  · rfl
  · simp [writeMember_plain loc h, write_string, hstart, hopen]

theorem attributeList_eq (first : Bool) (entries : List (Bytes × Bytes)) :
    attributeList loc first entries =
      (memberTokens first (entries.map fun e => (e.1, .string e.2))).flatMap
        (writer loc).token := by
  have hopen : ascii "\":\"" = [0x22, 0x3a, 0x22] := rfl
  induction entries generalizing first with
  | nil => rfl
  | cons e entries ih =>
      obtain ⟨key, value⟩ := e
      cases first <;>
        simp [attributeList, memberTokens, separator, comma, tokens, ih, Writer.token,
          hopen]

theorem attributesClaim_eq (attributes : StringMap) :
    attributesClaim loc attributes = followers loc (attributesMember attributes) := by
  have hname : Plain (ascii "attributes") := by decide
  have hopen : ascii ",\"attributes\":\x7b" =
    [0x2c] ++ ([0x22] ++ ascii "attributes" ++ ascii "\":") ++ [0x7b] := rfl
  have hlist : (writer loc).write (.object (attributes.entries.map fun e => (e.1, .string e.2))) =
      0x7b :: (attributeList loc true attributes.entries ++ [0x7d]) := by
    rw [attributeList_eq]
    simp [Writer.write, tokens, Writer.token]
  unfold attributesClaim attributesMember followers
  split_ifs
  · rfl
  · simp [writeMember_plain loc hname, hlist, hopen]

theorem grantClaim_eq {γ : Type} {name : String} {json : γ → Bytes} {members : γ → Members}
    (h : Plain (ascii name)) (hjson : ∀ g, json g = (writer loc).write (.object (members g)))
    (grant : Option γ) :
    grantClaim name json grant = followers loc (grantMember name members grant) := by
  have hstart : ascii ",\"" = [0x2c] ++ [0x22] := rfl
  cases grant with
  | none => rfl
  | some grant => simp [grantClaim, grantMember, followers, writeMember_plain loc h, hjson, hstart]

theorem times_text (issuedAt expiresAt : ℤ) :
    followers loc (timeMembers issuedAt expiresAt) =
      ascii ",\"nbf\":" ++ loc.insertInteger issuedAt ++ ascii ",\"exp\":" ++
        loc.insertInteger expiresAt ++ ascii ",\"iat\":" ++ loc.insertInteger issuedAt := by
  have hnbf : ascii ",\"nbf\":" = [0x2c] ++ ([0x22] ++ ascii "nbf" ++ ascii "\":") := rfl
  have hexp : ascii ",\"exp\":" = [0x2c] ++ ([0x22] ++ ascii "exp" ++ ascii "\":") := rfl
  have hiat : ascii ",\"iat\":" = [0x2c] ++ ([0x22] ++ ascii "iat" ++ ascii "\":") := rfl
  have hint : ∀ n : ℤ, (writer loc).write (.number (.ofInt n)) = loc.insertInteger n := fun n => by
    simp [Writer.write, tokens, Writer.token]
  simp (disch := decide) [followers, timeMembers, writeMember_plain, hint, hnbf, hexp, hiat]

/-- The text of the claims is one object, written member by member. -/
theorem claimsText_eq_write (token : AccessToken) (issuedAt expiresAt : ℤ) :
    claimsText loc token issuedAt expiresAt =
      (writer loc).write (.object (token.claims issuedAt expiresAt)) := by
  have hiss : ascii "\x7b\"iss\":\"" = [0x7b] ++ ([0x22] ++ ascii "iss" ++ ascii "\":") ++ [0x22] := rfl
  have hname : Plain (ascii "iss") := by decide
  have hnbf : ascii "\",\"nbf\":" = [0x22] ++ ascii ",\"nbf\":" := rfl
  have happend : ∀ front back, followers loc (front ++ back) =
      followers loc front ++ followers loc back := fun front back => List.flatMap_append
  have hwrite : (writer loc).write (.object (token.claims issuedAt expiresAt)) =
      [0x7b] ++ (writer loc).writeMember (ascii "iss", .string token.apiKey) ++
        followers loc (timeMembers issuedAt expiresAt ++
          stringMember "sub" token.identity ++ stringMember "name" token.name ++
          stringMember "metadata" token.metadata ++ attributesMember token.attributes ++
          grantMember "video" videoMembers token.videoGrant ++
          grantMember "sip" sipMembers token.sipGrant ++
          grantMember "agent" agentMembers token.agentGrant) ++ [0x7d] := by
    rw [Writer.write_object]
    simp [claims, commaJoin, followers]
  rw [hwrite]
  simp only [happend, times_text]
  rw [claimsText, stringClaim_eq loc _ (by decide), stringClaim_eq loc _ (by decide),
    stringClaim_eq loc _ (by decide), attributesClaim_eq,
    grantClaim_eq loc (by decide) (videoGrantJson_eq loc),
    grantClaim_eq loc (by decide) (sipGrantJson_eq loc),
    grantClaim_eq loc (by decide) (agentGrantJson_eq loc), writeMember_plain loc hname,
    write_string, hiss, hnbf]
  simp only [List.append_assoc]

end Text

section Strings

def videoStrings (grant : VideoGrant) : List Bytes :=
  grant.room :: grant.destinationRoom :: grant.canPublishSources

/-- Every string that a caller gives the builder, the secret apart. -/
def strings (token : AccessToken) : List Bytes :=
  [token.apiKey, token.identity, token.name, token.metadata] ++
    token.attributes.entries.flatMap (fun e => [e.1, e.2]) ++
    token.videoGrant.elim [] videoStrings

variable {S : Bytes → Prop} {N : Number → Prop} (hplain : ∀ s, Plain s → S s)

theorem allMembers_append {front back : Members} :
    AllMembers S N (front ++ back) ↔ AllMembers S N front ∧ AllMembers S N back := by
  simp only [allMembers_iff, List.forall_mem_append]

include hplain

theorem allMembers_boolMember {name : String} (h : Plain (ascii name)) (value includeFalse : Bool) :
    AllMembers S N (boolMember name value includeFalse) ↔ True := by
  unfold boolMember
  split_ifs <;> simp [AllMembers, All, hplain _ h]

theorem allMembers_optionalMember {name : String} (h : Plain (ascii name)) (value : Option Bool) :
    AllMembers S N (optionalMember name value) ↔ True := by
  cases value <;> simp [optionalMember, AllMembers, All, hplain _ h]

theorem allMembers_stringMember {name : String} (h : Plain (ascii name)) (value : Bytes) :
    AllMembers S N (stringMember name value) ↔ S value := by
  have hempty : S [] := hplain [] (by decide)
  unfold stringMember
  split_ifs with hv
  · simp [AllMembers, hv, hempty]
  · simp [AllMembers, All, hplain _ h]

theorem allMembers_sourcesMember (sources : List Bytes) :
    AllMembers S N (sourcesMember sources) ↔ ∀ s ∈ sources, S s := by
  have hname : S (ascii "canPublishSources") := hplain _ (by decide)
  unfold sourcesMember
  split_ifs with hs
  · simp [AllMembers, hs]
  · simp [AllMembers, All, allItems_iff, hname]

theorem allMembers_attributesMember (attributes : StringMap) :
    AllMembers S N (attributesMember attributes) ↔
      ∀ e ∈ attributes.entries, S e.1 ∧ S e.2 := by
  have hname : S (ascii "attributes") := hplain _ (by decide)
  unfold attributesMember
  split_ifs with ha
  · simp [AllMembers, ha]
  · simp only [AllMembers, All, hname, true_and, and_true, allMembers_iff, List.forall_mem_map]

theorem allMembers_grantMember {γ : Type} {name : String} (h : Plain (ascii name))
    (members : γ → Members) (grant : Option γ) :
    AllMembers S N (grantMember name members grant) ↔
      ∀ g ∈ grant, AllMembers S N (members g) := by
  cases grant <;> simp [grantMember, AllMembers, All, hplain _ h]

theorem allMembers_videoMembers (grant : VideoGrant) :
    AllMembers S N (videoMembers grant) ↔ ∀ s ∈ videoStrings grant, S s := by
  simp (disch := first | exact hplain | decide) only [videoMembers, allMembers_append,
    allMembers_boolMember, allMembers_optionalMember, allMembers_stringMember,
    allMembers_sourcesMember, videoStrings, List.forall_mem_cons, true_and, and_true,
    and_assoc]

/-- What holds of every string and number of the claims. Strings of plain bytes are put aside:
the names are such strings, and so is the empty string, which is never written. -/
theorem all_claims (token : AccessToken) (issuedAt expiresAt : ℤ) :
    All S N (.object (token.claims issuedAt expiresAt)) ↔
      (∀ s ∈ token.strings, S s) ∧ N (.ofInt issuedAt) ∧ N (.ofInt expiresAt) := by
  have hname : ∀ name : String, Plain (ascii name) → S (ascii name) := fun _ => hplain _
  have hfirst : AllMembers S N
      ((ascii "iss", .string token.apiKey) :: timeMembers issuedAt expiresAt) ↔
        S token.apiKey ∧ N (.ofInt issuedAt) ∧ N (.ofInt expiresAt) := by
    simp only [timeMembers, AllMembers, All, hname "iss" (by decide), hname "nbf" (by decide),
      hname "exp" (by decide), hname "iat" (by decide)]
    tauto
  have hsip : ∀ g, AllMembers S N (sipMembers g) := fun g => by
    simp (disch := first | exact hplain | decide) only [sipMembers, allMembers_append,
      allMembers_boolMember, true_and]
  have hagent : ∀ g, AllMembers S N (agentMembers g) := fun g => by
    simp (disch := first | exact hplain | decide) only [agentMembers, allMembers_append,
      allMembers_boolMember, true_and]
  have hvideo : (∀ s ∈ token.videoGrant.elim [] videoStrings, S s) ↔
      ∀ g ∈ token.videoGrant, ∀ s ∈ videoStrings g, S s := by
    cases token.videoGrant <;> simp
  simp (disch := first | exact hplain | decide) only [All, claims, allMembers_append, hfirst,
    allMembers_stringMember, allMembers_attributesMember, allMembers_grantMember,
    allMembers_videoMembers, hsip, hagent, implies_true, and_true, strings,
    List.forall_mem_append, List.forall_mem_cons, List.forall_mem_flatMap, List.not_mem_nil,
    IsEmpty.forall_iff, hvideo]
  tauto

end Strings

end LivekitServer.AccessToken
