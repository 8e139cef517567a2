import Mathlib.Algebra.Order.BigOperators.Group.List
import LivekitServer.Monitor
import LivekitServer.WinHttp

/-!
# Connections and handles over WinHTTP

`WinHttpTransport::Send` as a whole, by threads that share one transport: the map of connections is
behind a mutex, and everything else is the thread's own. A connection is opened for a host and port
once and serves all requests to them, a request goes over a connection to its own host and port,
and its handle is closed on every path.
-/

namespace LivekitServer.WinHttpTransport

section Calls

/-- The calls of `Send` with the mutex, and those of the receiving part. -/
inductive SendCall
  | lock
  | unlock
  | windows (call : WinCall)
  | queryStatus (handle : Handle)
  | queryDataAvailable (handle : Handle)
  | readData (handle : Handle) (room : ℕ)
  | closeHandle (handle : Handle)

def SendCall.Reply : SendCall → Type
  | .lock => Unit
  | .unlock => Unit
  | .windows call => call.Reply
  | .queryStatus _ => Option ℕ
  | .queryDataAvailable _ => Option ℕ
  | .readData _ _ => Option Bytes
  | .closeHandle _ => Unit

abbrev SendProgram := Program SendCall SendCall.Reply Thrown

def windows {α : Type} (p : WinProgram α) : SendProgram α :=
  p.translate fun call => Program.perform (SendCall.windows call)

def askStatus (handle : Handle) : SendProgram (Option ℕ) :=
  Program.perform (SendCall.queryStatus handle)

def askAvailable (handle : Handle) : SendProgram (Option ℕ) :=
  Program.perform (SendCall.queryDataAvailable handle)

def askData (handle : Handle) (room : ℕ) : SendProgram (Option Bytes) :=
  Program.perform (SendCall.readData handle room)

end Calls

section Sends

/-- `Connection`, whose guard gives the mutex back on every path. -/
def lockedConnection (host : Wide) (port : ℕ) : SendProgram Handle := do
  let _ : Unit ← Program.perform SendCall.lock
  (windows (connection host port)).resume fun result => do
    let _ : Unit ← Program.perform SendCall.unlock
    .done result

/-- The body after `received` was read behind it: it grows by the room, the bytes are written at its
old end, and it shrinks to what was received. -/
def readInto (body : Bytes) (room : ℕ) (received : Bytes) : Bytes :=
  (body ++ (received ++ List.replicate (room - received.length) 0).take room).take
    (body.length + received.length)

/-- The loop that receives, up to a number of rounds. -/
def receiveBody : ℕ → Handle → Bytes → SendProgram (Option Bytes)
  | 0, _, _ => pure none
  | rounds + 1, handle, body => do
    let available : ℕ ← windows (required .transport "WinHttpQueryDataAvailable"
      (← askAvailable handle))
    if available = 0 then pure (some body)
    else do
      let received : Bytes ← windows (required .transport "WinHttpReadData"
        (← askData handle available))
      receiveBody rounds handle (readInto body available received)

/-- `Send` once the request handle is there; no response when the rounds do not suffice. -/
def exchange (rounds : ℕ) (request : HttpRequest) (handle : Handle) :
    SendProgram (Option HttpResponse) := do
  let timeout := wrapInt32 (min request.timeout (2 ^ 31 - 1))
  windows do
    succeeded "WinHttpSetTimeouts"
      (← ask (.setTimeouts handle timeout timeout timeout timeout))
  let headers ← windows (utf8ToWide (narrowHeaders request.headers))
  windows do
    let sent : Bool ← ask (.sendRequest
      { handle := handle
        headers := headers
        headersLength := wrapDword headers.length
        optional := if request.body = [] then none else some request.body
        optionalLength := wrapDword request.body.length
        totalLength := wrapDword request.body.length })
    match sent with
    | false => fail .transport "WinHTTP request"
    | true => succeeded "WinHTTP request" (← ask (.receiveResponse handle))
  let status : ℕ ← windows (required .transport "WinHttpQueryHeaders" (← askStatus handle))
  let body ← receiveBody rounds handle []
  pure (body.map fun body => ⟨wrapInt32 status, body⟩)

/-- `WinHttpTransport::Send`. -/
def sendShared (rounds : ℕ) (request : HttpRequest) : SendProgram (Option HttpResponse) := do
  let url ← windows (utf8ToWide request.url)
  let components : UrlComponents ← windows do
    required .invalidArgument "WinHttpCrackUrl" (← ask (.crackUrl url (wrapDword url.length)))
  checkScheme components
  let connection ← lockedConnection components.hostName components.port
  let method ← windows (utf8ToWide request.method)
  let handle : Handle ← windows do
    required .transport "WinHttpOpenRequest"
      (← ask (.openRequest connection (cWide method) (cWide (requestPath components))
        (components.scheme = 2)))
  (exchange rounds request handle).resume fun result => do
    let _ : Unit ← Program.perform (SendCall.closeHandle handle)
    .done result

end Sends

section Pool

/-- The key of a connection. -/
def connectionKey (host : Wide) (port : ℕ) : Wide :=
  host ++ 0x3a :: (Decimal.decimal port).map UInt8.toUInt16

/-- The map of connections. Besides: every connection that Windows has opened, with its host and
port, and those that are in no map because their entry could not be made. -/
structure Pool where
  connections : List (Wide × Handle)
  opened : List (Wide × ℕ × Handle)
  lost : List Handle

def Pool.effect (pool : Pool) : (call : SendCall) → Outcome call.Reply → Pool
  | .windows (.connect host port), .ok (some handle) =>
    { pool with opened := pool.opened ++ [(host, port, handle)] }
  | .windows (.emplaceConnection key handle), .ok _ =>
    { pool with connections := pool.connections ++ [(key, handle)] }
  | .windows (.emplaceConnection _ handle), .error _ => { pool with lost := pool.lost ++ [handle] }
  | _, _ => pool

/-- A new connection has a handle that no connection has, and no more is received than there is
room for. -/
def Pool.possible (pool : Pool) : (call : SendCall) → Outcome call.Reply → Prop
  | .lock, _ => True
  | .windows (.findConnection key), reply => reply = .ok (pool.connections.lookup key)
  | .windows (.connect _ _), reply =>
    ∃ found : Option Handle, reply = .ok found ∧
      ∀ handle, found = some handle → handle ∉ pool.opened.map fun entry => entry.2.2
  | .windows (.emplaceConnection _ _), _ => True
  | .readData _ room, reply =>
    ∃ found : Option Bytes, reply = .ok found ∧ ∀ bytes, found = some bytes → bytes.length ≤ room
  | _, reply => reply.isOk = true

def poolMonitor : Monitor SendCall SendCall.Reply Thrown Pool where
  use
    | .lock => .acquire
    | .unlock => .release
    | .windows (.findConnection _) => .touch
    | .windows (.connect _ _) => .touch
    | .windows (.emplaceConnection _ _) => .touch
    | _ => .elsewhere
  effect := Pool.effect
  possible := Pool.possible

/-- One connection for each key, opened to its host and port, and no connection that is neither in
the map nor lost. -/
structure Pool.Consistent (pool : Pool) : Prop where
  keys : (pool.connections.map Prod.fst).Nodup
  handles : (pool.opened.map fun entry => entry.2.2).Nodup
  entries : ∀ entry ∈ pool.connections, ∃ host port, entry.1 = connectionKey host port ∧
    (cWide host, port, entry.2) ∈ pool.opened
  all : (pool.opened.map fun entry => entry.2.2).Perm (pool.connections.map Prod.snd ++ pool.lost)

/-- The pool has this connection for the host and port. -/
def Pool.Serves (pool : Pool) (host : Wide) (port : ℕ) (connection : Handle) : Prop :=
  (connectionKey host port, connection) ∈ pool.connections ∧
    (cWide host, port, connection) ∈ pool.opened

/-- The pool only grows. -/
def Pool.Grows (pool pool' : Pool) : Prop :=
  pool.connections <+: pool'.connections ∧ pool.opened <+: pool'.opened

def poolRules : Monitor.Rules poolMonitor where
  invariant := Pool.Consistent
  develops := Pool.Grows
  refl _ := ⟨List.prefix_rfl, List.prefix_rfl⟩
  trans _ _ _ h h' := ⟨h.1.trans h'.1, h.2.trans h'.2⟩

theorem colon_notMem_port (port : ℕ) : 0x3a ∉ (Decimal.decimal port).map UInt8.toUInt16 := by
  intro h
  obtain ⟨b, hb, hcolon⟩ := List.mem_map.mp h
  have hdigit := Decimal.isDigit_of_mem_decimal hb
  obtain rfl : b = 0x3a := UInt8.toNat_inj.mp (congrArg UInt16.toNat hcolon)
  cases hdigit

/-- The port is what follows the last colon, also when the host has colons. -/
theorem connectionKey_injective {host host' : Wide} {port port' : ℕ}
    (h : connectionKey host port = connectionKey host' port') : host = host' ∧ port = port' := by
  have htail (host : Wide) (port : ℕ) :
      (connectionKey host port).reverse.takeWhile (· ≠ 0x3a) =
        ((Decimal.decimal port).map UInt8.toUInt16).reverse := by
    rw [connectionKey, List.reverse_append, List.reverse_cons, List.append_assoc,
      List.takeWhile_append_of_pos]
    · rw [List.singleton_append, List.takeWhile_cons_of_neg (by simp), List.append_nil]
    · intro unit hunit
      refine decide_eq_true ?_
      rintro rfl
      exact colon_notMem_port port (List.mem_reverse.mp hunit)
  have hport : (Decimal.decimal port).map UInt8.toUInt16 =
      (Decimal.decimal port').map UInt8.toUInt16 := by
    rw [← List.reverse_inj, ← htail host port, ← htail host' port', h]
  rw [connectionKey, connectionKey, hport, List.append_left_inj] at h
  have hinjective : Function.Injective UInt8.toUInt16 := fun b c hbc =>
    UInt8.toNat_inj.mp (congrArg UInt16.toNat hbc)
  have hdecimal := List.map_injective_iff.mpr hinjective hport
  refine ⟨h, ?_⟩
  rw [← Decimal.value_decimal port, hdecimal, Decimal.value_decimal]

end Pool

section Course

/-- The calls of a `Send` so far, with their replies. -/
abbrev History := List (Monitor.Event SendCall.Reply Thrown)

/-- What they come to: the parts of the URL, the request handles that are open, whether only such
handles were closed, the status, and what was received. -/
structure Course where
  components : Option UrlComponents
  handles : List Handle
  sound : Bool
  status : Option ℕ
  received : List Bytes

def Course.record (course : Course) : Monitor.Event SendCall.Reply Thrown → Course
  | ⟨.windows (.crackUrl _ _), .ok (some components)⟩ =>
    { course with components := some components }
  | ⟨.windows (.openRequest _ _ _ _), .ok (some handle)⟩ =>
    { course with handles := course.handles ++ [handle] }
  | ⟨.closeHandle handle, _⟩ =>
    { course with
      handles := course.handles.erase handle
      sound := course.sound && course.handles.contains handle }
  | ⟨.queryStatus _, .ok (some status)⟩ => { course with status := some status }
  | ⟨.readData _ _, .ok (some bytes)⟩ => { course with received := course.received ++ [bytes] }
  | _ => course

def course (history : History) : Course :=
  history.foldl Course.record ⟨none, [], true, none, []⟩

theorem course_append (history : History) (event : Monitor.Event SendCall.Reply Thrown) :
    course (history ++ [event]) = (course history).record event := by
  rw [course, List.foldl_append]
  rfl

/-- A request goes over a connection to the host and port of its URL, and what it does with its
handle it does while that is open. -/
def permitted (history : History) : SendCall → Monitor.View Pool → Prop
  | .windows (.openRequest connection _ _ _), .seen pool =>
    ∃ components, (course history).components = some components ∧
      pool.Serves components.hostName components.port connection
  | .windows (.openRequest _ _ _ _), .held _ => False
  | .windows (.setTimeouts handle _ _ _ _), _ => (course history).handles = [handle]
  | .windows (.sendRequest sending), _ => (course history).handles = [sending.handle]
  | .windows (.receiveResponse handle), _ => (course history).handles = [handle]
  | .queryStatus handle, _ => (course history).handles = [handle]
  | .queryDataAvailable handle, _ => (course history).handles = [handle]
  | .readData handle _, _ => (course history).handles = [handle]
  | .closeHandle handle, _ => (course history).handles = [handle]
  | _, _ => True

/-- A `Send` has closed the handle that it opened, and no other. A response is what was received,
with the status; without one every round has received something. -/
structure Sent (rounds : ℕ) (history : History) (result : Outcome (Option HttpResponse)) :
    Prop where
  closed : (course history).handles = []
  sound : (course history).sound = true
  response : ∀ response, result = .ok (some response) → ∃ status,
    (course history).status = some status ∧
      response = ⟨wrapInt32 status, (course history).received.flatten⟩
  rounds : result = .ok none → rounds ≤ (course history).received.length

end Course

section Parts

open Monitor

variable {history : History} {view : View Pool} {α : Type}

/-- Calls that leave the course of a `Send` as it is, with the handles that it has open. -/
def quiet (handles : List Handle) : WinCall → Prop
  | .wideLength _ _ => True
  | .widen _ _ _ => True
  | .lastError => True
  | .setTimeouts handle _ _ _ _ => handles = [handle]
  | .sendRequest sending => handles = [sending.handle]
  | .receiveResponse handle => handles = [handle]
  | _ => False

theorem safe_windows {p : WinProgram α} {n : ℕ}
    (hp : p.CallsAtMost (quiet (course history).handles) n) :
    Safe poolRules permitted (fun after _ view' => view' = view ∧ course after = course history)
      (windows p) history view := by
  induction p generalizing history n with
  | done r => exact ⟨rfl, rfl⟩
  | call call next ih =>
      cases n with
      | zero => exact hp.elim
      | succ n =>
          obtain ⟨hquiet, hnext⟩ := hp
          have hrecord (reply : Outcome call.Reply) :
              course (history ++ [⟨.windows call, reply⟩]) = course history := by
            rw [course_append]
            cases call with
            | crackUrl | findConnection | connect | emplaceConnection | openRequest =>
                exact hquiet.elim
            | wideLength | widen | lastError | setTimeouts | sendRequest | receiveResponse => rfl
          have hrest (reply : Outcome call.Reply) :
              Safe poolRules permitted
                (fun after _ view' => view' = view ∧ course after = course history)
                (windows (next reply)) (history ++ [⟨.windows call, reply⟩]) view := by
            have hafter := @ih reply (history ++ [⟨.windows call, reply⟩]) n
              (by rw [hrecord]; exact hnext reply)
            rw [hrecord] at hafter
            exact hafter
          cases call with
          | crackUrl | findConnection | connect | emplaceConnection | openRequest =>
              exact hquiet.elim
          | wideLength | widen | lastError =>
              exact safe_elsewhere_resume rfl trivial fun _ reply _ => hrest reply
          | setTimeouts | sendRequest | receiveResponse =>
              exact safe_elsewhere_resume rfl hquiet fun _ reply _ => hrest reply

/-- A call of Windows that does not touch the pool, and what follows. -/
theorem safe_windows_elsewhere {β : Type} (call : WinCall) {f : call.Reply → WinProgram β}
    {ends : History → Outcome β → View Pool → Prop}
    (huse : poolMonitor.use (.windows call) = .elsewhere)
    (hpermit : permitted history (.windows call) view)
    (hnext : ∀ pool reply, poolMonitor.possible pool (.windows call) reply →
      Safe poolRules permitted ends (windows (Program.onValue f reply))
        (history ++ [⟨.windows call, reply⟩]) view) :
    Safe poolRules permitted ends (windows (ask call >>= f)) history view :=
  safe_elsewhere_resume huse hpermit hnext

/-- A call that touches the pool, and what follows. -/
theorem safe_windows_touch {β : Type} (call : WinCall) {f : call.Reply → WinProgram β}
    {ends : History → Outcome β → View Pool → Prop} {pool : Pool}
    (huse : poolMonitor.use (.windows call) = .touch)
    (hpermit : permitted history (.windows call) (.held pool))
    (hnext : ∀ reply, poolMonitor.possible pool (.windows call) reply →
      pool.Grows (pool.effect (.windows call) reply) ∧
      Safe poolRules permitted ends (windows (Program.onValue f reply))
        (history ++ [⟨.windows call, reply⟩]) (.held (pool.effect (.windows call) reply))) :
    Safe poolRules permitted ends (windows (ask call >>= f)) history (.held pool) :=
  safe_touch_resume huse hpermit hnext

theorem safe_required (code : ErrorCode) (operation : String) (found : Option α) :
    Safe poolRules permitted
      (fun after r view' => view' = view ∧ course after = course history ∧
        (∀ a, r = .ok a → found = some a) ∧ ∀ e, r = .error e → found = none)
      (windows (required code operation found)) history view := by
  cases found with
  | some a => exact ⟨rfl, rfl, fun b hb => congrArg some (Except.ok.inj hb), nofun⟩
  | none =>
      apply safe_windows_elsewhere .lastError rfl trivial
      intro _ reply hreply
      cases reply with
      | error e => cases hreply
      | ok number => exact ⟨rfl, course_append _ _, nofun, fun _ _ => rfl⟩

theorem callsAtMost_utf8ToWide (handles : List Handle) (value : Bytes) :
    (utf8ToWide value).CallsAtMost (quiet handles) 2 := by
  unfold utf8ToWide
  split_ifs
  · exact Program.callsAtMost_done 2 _
  · refine ⟨trivial, fun reply => ?_⟩
    cases reply with
    | error e => exact Program.callsAtMost_done 1 _
    | ok length =>
        have hcount : ∀ length : ℤ, Program.CallsAtMost (quiet handles) 1
            (if length ≤ 0 then
              (raise .invalidArgument (ascii "HTTP value is not valid UTF-8") : Outcome Wide)
            else do
              let written : Wide ← ask (.widen value (wrapInt32 value.length) length)
              pure (fill length written) : WinProgram Wide) := by
          intro length
          split_ifs
          · exact Program.callsAtMost_done 1 _
          · refine ⟨trivial, fun written => ?_⟩
            cases written <;> trivial
        exact hcount length

variable {pool : Pool} {host : Wide} {port : ℕ}

theorem Pool.Consistent.serves (hpool : pool.Consistent) {connection : Handle}
    (h : (connectionKey host port, connection) ∈ pool.connections) :
    pool.Serves host port connection := by
  obtain ⟨host', port', hkey, hopened⟩ := hpool.entries _ h
  obtain ⟨rfl, rfl⟩ := connectionKey_injective hkey
  exact ⟨h, hopened⟩

/-- A connection that is opened and gets an entry. -/
theorem Pool.Consistent.emplace (hpool : pool.Consistent) {connection : Handle}
    (hkey : connectionKey host port ∉ pool.connections.map Prod.fst)
    (hfresh : connection ∉ pool.opened.map fun entry => entry.2.2) :
    (Pool.mk (pool.connections ++ [(connectionKey host port, connection)])
      (pool.opened ++ [(cWide host, port, connection)]) pool.lost).Consistent := by
  have hall := hpool.all
  constructor
  · rw [List.map_append, List.map_singleton]
    exact hpool.keys.append (List.nodup_singleton _) (List.disjoint_singleton.mpr hkey)
  · rw [List.map_append, List.map_singleton]
    exact hpool.handles.append (List.nodup_singleton _) (List.disjoint_singleton.mpr hfresh)
  · intro entry hentry
    rcases List.mem_append.mp hentry with hentry | hentry
    · obtain ⟨host', port', hkey', hopened⟩ := hpool.entries entry hentry
      exact ⟨host', port', hkey', List.mem_append_left _ hopened⟩
    · obtain rfl := List.mem_singleton.mp hentry
      exact ⟨host, port, rfl, List.mem_append_right _ (List.mem_singleton_self _)⟩
  · rw [List.map_append, List.map_append, List.map_singleton, List.map_singleton, List.append_assoc]
    apply (hall.append_right _).trans
    rw [List.append_assoc]
    exact List.perm_append_comm.append_left _

/-- A connection that is opened and gets no entry. -/
theorem Pool.Consistent.lose (hpool : pool.Consistent) {connection : Handle}
    (hfresh : connection ∉ pool.opened.map fun entry => entry.2.2) :
    (Pool.mk pool.connections (pool.opened ++ [(cWide host, port, connection)])
      (pool.lost ++ [connection])).Consistent := by
  have hall := hpool.all
  refine ⟨hpool.keys, ?_, fun entry hentry => ?_, ?_⟩
  · rw [List.map_append, List.map_singleton]
    exact hpool.handles.append (List.nodup_singleton _) (List.disjoint_singleton.mpr hfresh)
  · obtain ⟨host', port', hkey', hopened⟩ := hpool.entries entry hentry
    exact ⟨host', port', hkey', List.mem_append_left _ hopened⟩
  · rw [List.map_append, List.map_singleton, ← List.append_assoc]
    exact hall.append_right _

/-- What `Connection` does with the pool while it holds the mutex. -/
theorem safe_connection (hpool : pool.Consistent) :
    Safe poolRules permitted
      (fun after r view => ∃ pool', view = .held pool' ∧ pool'.Consistent ∧
        course after = course history ∧ ∀ h, r = .ok h → pool'.Serves host port h)
      (windows (connection host port)) history (.held pool) := by
  apply safe_windows_touch (.findConnection (connectionKey host port)) rfl trivial
  intro reply hreply
  refine ⟨poolRules.refl pool, ?_⟩
  obtain rfl : reply = .ok (pool.connections.lookup (connectionKey host port)) := hreply
  cases hfound : pool.connections.lookup (connectionKey host port) with
  | some existing =>
      refine ⟨pool, rfl, hpool, course_append _ _, fun h hh => ?_⟩
      obtain rfl := Except.ok.inj hh
      exact hpool.serves (AssocList.mem_of_lookup hfound)
  | none =>
      have hkey : connectionKey host port ∉ pool.connections.map Prod.fst := by
        intro hmem
        obtain ⟨⟨key, handle⟩, hentry, rfl⟩ := List.mem_map.mp hmem
        rw [AssocList.lookup_of_mem hpool.keys hentry] at hfound
        cases hfound
      apply safe_windows_touch (.connect (cWide host) port) rfl trivial
      rintro reply ⟨found, rfl, hfresh⟩
      cases found with
      | none =>
          refine ⟨poolRules.refl pool, ?_⟩
          apply safe_elsewhere_resume rfl trivial
          intro _ reply hreply
          cases reply with
          | error e => cases hreply
          | ok number =>
              refine ⟨pool, rfl, hpool, ?_, nofun⟩
              rw [course_append, course_append, course_append]
              rfl
      | some handle =>
          refine ⟨⟨List.prefix_rfl, List.prefix_append _ _⟩, ?_⟩
          apply safe_windows_touch (.emplaceConnection (connectionKey host port) handle) rfl trivial
          intro reply _
          cases reply with
          | error e =>
              refine ⟨⟨List.prefix_rfl, List.prefix_rfl⟩, ?_⟩
              refine ⟨_, rfl, hpool.lose (hfresh handle rfl), ?_, nofun⟩
              rw [course_append, course_append, course_append]
              rfl
          | ok _ =>
              have hnew := hpool.emplace hkey (hfresh handle rfl)
              refine ⟨⟨List.prefix_append _ _, List.prefix_rfl⟩, ?_⟩
              refine ⟨_, rfl, hnew, ?_, fun h hh => ?_⟩
              · rw [course_append, course_append, course_append]
                rfl
              · obtain rfl := Except.ok.inj hh
                exact hnew.serves (List.mem_append_right _ (List.mem_singleton_self _))

theorem safe_lockedConnection {x : Pool} :
    Safe poolRules permitted
      (fun after r view => ∃ pool', view = .seen pool' ∧ course after = course history ∧
        ∀ h, r = .ok h → pool'.Serves host port h)
      (lockedConnection host port) history (.seen x) := by
  rw [lockedConnection]
  apply safe_acquire_resume rfl trivial
  · exact fun _ e _ => ⟨x, rfl, course_append _ _, nofun⟩
  · intro pool _ hpool a
    have hlock : course (history ++ [⟨.lock, .ok a⟩]) = course history := course_append _ _
    have hconnection := @safe_connection (history ++ [⟨.lock, .ok a⟩]) pool host port hpool
    rw [hlock] at hconnection
    apply hconnection.resume
    rintro after r view ⟨pool', rfl, hpool', hafter, hserves⟩
    apply safe_release_resume rfl trivial hpool'
    intro reply hreply
    cases reply with
    | error e => cases hreply
    | ok _ =>
        refine ⟨pool', rfl, ?_, hserves⟩
        rw [course_append, hafter]
        rfl

theorem readInto_eq (body : Bytes) {room : ℕ} {received : Bytes} (h : received.length ≤ room) :
    readInto body room received = body ++ received := by
  rw [readInto, List.take_length_add_append, List.take_take, Nat.min_eq_left h, List.take_left]

/-- What the loop leaves in the body is what was received, chunk after chunk. -/
theorem safe_receiveBody {handle : Handle} (rounds : ℕ) (body : Bytes)
    (hopen : (course history).handles = [handle]) :
    Safe poolRules permitted
      (fun after r view' => view' = view ∧ ∃ chunks,
        course after =
          { course history with received := (course history).received ++ chunks } ∧
        (∀ b, r = .ok (some b) → b = body ++ chunks.flatten) ∧
        (r = .ok none → rounds ≤ chunks.length))
      (receiveBody rounds handle body) history view := by
  induction rounds generalizing history body with
  | zero =>
      refine ⟨rfl, [], ?_, nofun, fun _ => Nat.zero_le _⟩
      rw [List.append_nil]
  | succ rounds ih =>
      rw [receiveBody]
      apply safe_elsewhere_resume rfl hopen
      intro _ reply hreply
      cases reply with
      | error e => cases hreply
      | ok available =>
          have hasked : course (history ++ [⟨.queryDataAvailable handle, .ok available⟩]) =
              course history := course_append _ _
          apply (safe_required .transport "WinHttpQueryDataAvailable" available).bind
          · rintro after e view ⟨rfl, hafter, -, -⟩
            refine ⟨rfl, [], ?_, nofun, nofun⟩
            rw [hafter, hasked, List.append_nil]
          · rintro after available view ⟨rfl, hafter, -, -⟩
            rw [hasked] at hafter
            by_cases hnone : available = 0
            · rw [if_pos hnone]
              refine ⟨rfl, [], ?_, fun b hb => ?_, nofun⟩
              · rw [hafter, List.append_nil]
              · rw [← Option.some.inj (Except.ok.inj hb)]
                exact (List.append_nil body).symm
            · rw [if_neg hnone]
              apply safe_elsewhere_resume rfl
                (show (course after).handles = [handle] by rw [hafter, hopen])
              rintro _ reply ⟨found, rfl, hfits⟩
              have hread : course (after ++ [⟨.readData handle available, .ok found⟩]) =
                  { course history with
                    received := (course history).received ++ found.toList } := by
                rw [course_append, hafter]
                cases found with
                | none => exact congrArg (Course.mk _ _ _ _) (List.append_nil _).symm
                | some bytes => rfl
              apply (safe_required .transport "WinHttpReadData" found).bind
              · rintro last e view ⟨rfl, hlast, -, -⟩
                refine ⟨rfl, found.toList, ?_, nofun, nofun⟩
                rw [hlast, hread]
              · rintro last bytes view ⟨rfl, hlast, hfound, -⟩
                obtain rfl := hfound bytes rfl
                rw [hread] at hlast
                have hrest := @ih last (readInto body available bytes) (by rw [hlast, hopen])
                apply hrest.mono
                rintro final r view ⟨rfl, chunks, hfinal, hbody, hrounds⟩
                refine ⟨rfl, bytes :: chunks, ?_, fun b hb => ?_, fun hr => ?_⟩
                · rw [hfinal, hlast]
                  simp
                · rw [hbody b hb, readInto_eq body (hfits bytes rfl), List.flatten_cons,
                    List.append_assoc]
                · exact Nat.succ_le_succ (hrounds hr)

theorem callsAtMost_succeeded (handles : List Handle) (operation : String) (success : Bool) :
    (succeeded operation success).CallsAtMost (quiet handles) 1 := by
  cases success with
  | true => exact Program.callsAtMost_done 1 _
  | false =>
      refine ⟨trivial, fun reply => ?_⟩
      cases reply <;> trivial

/-- A call of Windows whose success is checked. -/
theorem callsAtMost_checked {handles : List Handle} (call : WinCall) (hcall : quiet handles call)
    {operation : String} {success : call.Reply → Bool} :
    (ask call >>= fun reply => succeeded operation (success reply)).CallsAtMost
      (quiet handles) 2 := by
  refine ⟨hcall, fun reply => ?_⟩
  cases reply with
  | error e => exact Program.callsAtMost_done 1 _
  | ok reply => exact callsAtMost_succeeded handles operation (success reply)

/-- What a `Send` has done while its handle is open. -/
structure Exchanged (rounds : ℕ) (handle : Handle) (before after : Course)
    (result : Outcome (Option HttpResponse)) : Prop where
  handles : after.handles = [handle]
  sound : after.sound = before.sound
  response : ∀ response, result = .ok (some response) → ∃ status,
    after.status = some status ∧ response = ⟨wrapInt32 status, after.received.flatten⟩
  rounds : result = .ok none → rounds ≤ after.received.length

theorem exchanged_of_error {rounds : ℕ} {handle : Handle} {before after : Course} {e : Thrown}
    (h : after.handles = [handle] ∧ after.sound = before.sound) :
    Exchanged rounds handle before after (.error e) := ⟨h.1, h.2, nofun, nofun⟩

theorem safe_exchange {handle : Handle} (rounds : ℕ) (request : HttpRequest)
    (hopen : (course history).handles = [handle]) (hnew : (course history).received = []) :
    Safe poolRules permitted
      (fun after r view' => view' = view ∧
        Exchanged rounds handle (course history) (course after) r)
      (exchange rounds request handle) history view := by
  rw [exchange]
  apply (safe_windows (callsAtMost_checked (.setTimeouts handle _ _ _ _) hopen)).bind
  · intro after e view ⟨hview, hafter⟩
    exact ⟨hview, exchanged_of_error (by rw [hafter]; exact ⟨hopen, rfl⟩)⟩
  rintro timed _ view ⟨rfl, htimed⟩
  apply (safe_windows (callsAtMost_utf8ToWide _ _)).bind
  · intro after e view ⟨hview, hafter⟩
    exact ⟨hview, exchanged_of_error (by rw [hafter, htimed]; exact ⟨hopen, rfl⟩)⟩
  rintro converted headers view ⟨rfl, hconverted⟩
  rw [htimed] at hconverted
  have hsend : (do
      let sent : Bool ← ask (.sendRequest
        { handle := handle
          headers := headers
          headersLength := wrapDword headers.length
          optional := if request.body = [] then none else some request.body
          optionalLength := wrapDword request.body.length
          totalLength := wrapDword request.body.length })
      match sent with
      | false => fail .transport "WinHTTP request"
      | true => succeeded "WinHTTP request" (← ask (.receiveResponse handle)) :
        WinProgram Unit).CallsAtMost (quiet (course converted).handles) 3 := by
    rw [hconverted, hopen]
    refine ⟨rfl, fun reply => ?_⟩
    cases reply with
    | error e => exact Program.callsAtMost_done 2 _
    | ok sent =>
        have hsent : ∀ sent : Bool, (match sent with
            | false => fail .transport "WinHTTP request"
            | true => do
              succeeded "WinHTTP request" (← ask (.receiveResponse handle)) :
              WinProgram Unit).CallsAtMost (quiet [handle]) 2 := by
          intro sent
          cases sent with
          | false => exact (callsAtMost_succeeded [handle] "WinHTTP request" false).mono (by omega)
          | true => exact callsAtMost_checked (.receiveResponse handle) rfl
        exact hsent sent
  apply (safe_windows hsend).bind
  · intro after e view ⟨hview, hafter⟩
    exact ⟨hview, exchanged_of_error (by rw [hafter, hconverted]; exact ⟨hopen, rfl⟩)⟩
  rintro sent _ view ⟨rfl, hsent⟩
  rw [hconverted] at hsent
  apply safe_elsewhere_resume rfl (show (course sent).handles = [handle] by rw [hsent, hopen])
  intro _ reply hreply
  cases reply with
  | error e => cases hreply
  | ok found =>
      have hstatus : course (sent ++ [⟨.queryStatus handle, .ok found⟩]) =
          { course history with status := found.or (course history).status } := by
        rw [course_append, hsent]
        cases found <;> rfl
      apply (safe_required .transport "WinHttpQueryHeaders" found).bind
      · rintro after e view ⟨rfl, hafter, -, -⟩
        exact ⟨rfl, exchanged_of_error (by rw [hafter, hstatus]; exact ⟨hopen, rfl⟩)⟩
      · rintro queried status view ⟨rfl, hqueried, hfound, -⟩
        obtain rfl := hfound status rfl
        rw [hstatus] at hqueried
        apply (safe_receiveBody rounds [] (by rw [hqueried, hopen])).bind
        · rintro after e view ⟨rfl, chunks, hafter, -⟩
          exact ⟨rfl, exchanged_of_error (by rw [hafter, hqueried]; exact ⟨hopen, rfl⟩)⟩
        · rintro after body view ⟨rfl, chunks, hafter, hbody, hrounds⟩
          rw [hqueried, hnew, List.nil_append] at hafter
          refine ⟨rfl, by rw [hafter]; exact hopen, by rw [hafter], fun response hr => ?_,
            fun hr => ?_⟩
          · obtain ⟨b, rfl, rfl⟩ := Option.map_eq_some_iff.mp (Except.ok.inj hr)
            refine ⟨status, by rw [hafter]; rfl, ?_⟩
            rw [hafter, hbody b rfl, List.nil_append]
          · obtain rfl := Option.map_eq_none_iff.mp (Except.ok.inj hr)
            rw [hafter]
            exact hrounds rfl

/-- A call of Windows whose result is required. -/
theorem safe_windows_required (call : WinCall) (code : ErrorCode) (operation : String)
    {found : call.Reply → Option α} (huse : poolMonitor.use (.windows call) = .elsewhere)
    (hpermit : permitted history (.windows call) view)
    (hreplies : ∀ pool reply, poolMonitor.possible pool (.windows call) reply →
      reply.isOk = true) :
    Safe poolRules permitted
      (fun after r view' => view' = view ∧ ∃ reply,
        course after = (course history).record ⟨.windows call, .ok reply⟩ ∧
        (∀ a, r = .ok a → found reply = some a) ∧ ∀ e, r = .error e → found reply = none)
      (windows (ask call >>= fun reply => required code operation (found reply))) history view := by
  apply safe_windows_elsewhere call huse hpermit
  intro pool reply hreply
  have hok := hreplies pool reply hreply
  cases reply with
  | error e => cases hok
  | ok reply =>
      apply (safe_required code operation (found reply)).mono
      rintro after r view' ⟨hview, hafter, hfound⟩
      exact ⟨hview, reply, by rw [hafter, course_append], hfound⟩

/-- The argument about a whole `Send`. -/
theorem safe_sendShared (rounds : ℕ) (request : HttpRequest) (x : Pool) :
    SafeRunning poolRules (fun _ => permitted) (fun job history r _ => Sent job.1 history r)
      ⟨(rounds, request), [], sendShared rounds request⟩ (.seen x) := by
  have hfailed {history : History} {s : Pool} {e : Thrown}
      (hhandles : (course history).handles = [])
      (hsound : (course history).sound = true) :
      atRest (fun history r _ => Sent rounds history r) history (.error e) (.seen s) :=
    ⟨hhandles, hsound, nofun, nofun⟩
  rw [SafeRunning, sendShared]
  dsimp only
  apply (safe_windows (callsAtMost_utf8ToWide _ _)).bind
  · rintro after e view ⟨rfl, hafter⟩
    exact hfailed (by rw [hafter]; rfl) (by rw [hafter]; rfl)
  rintro named url view ⟨rfl, hnamed⟩
  apply (safe_windows_required (.crackUrl url _) .invalidArgument "WinHttpCrackUrl" rfl trivial
    fun _ _ h => h).bind
  · rintro after e view ⟨rfl, found, hafter, -, -⟩
    rw [hnamed] at hafter
    cases found with
    | none => exact hfailed (by rw [hafter]; rfl) (by rw [hafter]; rfl)
    | some components => exact hfailed (by rw [hafter]; rfl) (by rw [hafter]; rfl)
  rintro cracked components view ⟨rfl, found, hcracked, hfound, -⟩
  obtain rfl := hfound components rfl
  rw [hnamed] at hcracked
  cases hscheme : checkScheme components with
  | error e => exact hfailed (by rw [hcracked]; rfl) (by rw [hcracked]; rfl)
  | ok _ =>
      apply safe_lockedConnection.bind
      · rintro after e view ⟨pool, rfl, hafter, -⟩
        rw [hcracked] at hafter
        exact hfailed (by rw [hafter]; rfl) (by rw [hafter]; rfl)
      rintro connected connection view ⟨pool, rfl, hconnected, hserves⟩
      rw [hcracked] at hconnected
      apply (safe_windows (callsAtMost_utf8ToWide _ _)).bind
      · rintro after e view ⟨rfl, hafter⟩
        rw [hconnected] at hafter
        exact hfailed (by rw [hafter]; rfl) (by rw [hafter]; rfl)
      rintro spelled method view ⟨rfl, hspelled⟩
      rw [hconnected] at hspelled
      have hpermit : permitted spelled (.windows (.openRequest connection (cWide method)
          (cWide (requestPath components)) (components.scheme = 2))) (.seen pool) :=
        ⟨components, by rw [hspelled]; rfl, hserves connection rfl⟩
      apply (safe_windows_required _ .transport "WinHttpOpenRequest" rfl hpermit
        fun _ _ h => h).bind
      · rintro after e view ⟨rfl, found, hafter, -, hnone⟩
        obtain rfl := hnone e rfl
        rw [hspelled] at hafter
        exact hfailed (by rw [hafter]; rfl) (by rw [hafter]; rfl)
      rintro opened handle view ⟨rfl, found, hopened, hfound, -⟩
      obtain rfl := hfound handle rfl
      rw [hspelled] at hopened
      apply (safe_exchange rounds request (by rw [hopened]; rfl) (by rw [hopened]; rfl)).resume
      rintro after r view ⟨rfl, hexchanged⟩
      apply safe_elsewhere_resume rfl hexchanged.handles
      intro _ reply hreply
      cases reply with
      | error e => cases hreply
      | ok closing =>
          have hclosed : course (after ++ [⟨.closeHandle handle, .ok closing⟩]) =
              { course after with handles := [] } := by
            rw [course_append, Course.record, hexchanged.handles]
            simp
          refine ⟨by rw [hclosed], ?_, ?_, ?_⟩
          · rw [hclosed]
            exact hexchanged.sound.trans (by rw [hopened]; rfl)
          · rw [hclosed]
            exact hexchanged.response
          · rw [hclosed]
            exact hexchanged.rounds

end Parts

section Threads

variable {pool : Pool}

/-- The connections that `~WinHttpTransport` closes. -/
def Pool.closes (pool : Pool) : List Handle := pool.connections.map Prod.snd

theorem Pool.Consistent.closes (hpool : pool.Consistent) :
    pool.closes.Nodup ∧
      ∀ entry ∈ pool.opened, entry.2.2 ∈ pool.closes ∨ entry.2.2 ∈ pool.lost := by
  have hnodup := hpool.all.nodup_iff.mp hpool.handles
  refine ⟨(List.nodup_append.mp hnodup).1, fun entry hentry => ?_⟩
  exact List.mem_append.mp (hpool.all.mem_iff.mp (List.mem_map_of_mem hentry))

/-- Two connections for one host and port are one connection. -/
theorem Pool.Consistent.serves_unique (hpool : pool.Consistent) {host : Wide} {port : ℕ}
    {connection connection' : Handle} (h : pool.Serves host port connection)
    (h' : pool.Serves host port connection') : connection = connection' := by
  have hlookup := AssocList.lookup_of_mem hpool.keys h.1
  rw [AssocList.lookup_of_mem hpool.keys h'.1] at hlookup
  exact (Option.some.inj hlookup).symm

/-- One connection is for one host and port, as Windows reads the host. -/
theorem Pool.Consistent.serves_same (hpool : pool.Consistent) {host host' : Wide} {port port' : ℕ}
    {connection : Handle} (h : pool.Serves host port connection)
    (h' : pool.Serves host' port' connection) : cWide host = cWide host' ∧ port = port' := by
  have heq := List.inj_on_of_nodup_map hpool.handles h.2 h'.2 rfl
  obtain ⟨hhost, hrest⟩ := Prod.mk.inj heq
  exact ⟨hhost, (Prod.mk.inj hrest).1⟩

theorem Pool.Serves.grows {pool' : Pool} {host : Wide} {port : ℕ} {connection : Handle}
    (h : pool.Serves host port connection) (hgrows : pool.Grows pool') :
    pool'.Serves host port connection :=
  ⟨hgrows.1.subset h.1, hgrows.2.subset h.2⟩

/-- The request handle that a call works on. -/
def handleOf : SendCall → Option Handle
  | .windows (.setTimeouts handle _ _ _ _) => some handle
  | .windows (.sendRequest sending) => some sending.handle
  | .windows (.receiveResponse handle) => some handle
  | .queryStatus handle => some handle
  | .queryDataAvailable handle => some handle
  | .readData handle _ => some handle
  | .closeHandle handle => some handle
  | _ => none

theorem handleOf_permitted {history : History} {call : SendCall} {view : Monitor.View Pool}
    {handle : Handle} (h : permitted history call view) (hhandle : handleOf call = some handle) :
    (course history).handles = [handle] := by
  cases call with
  | lock | unlock => cases hhandle
  | queryStatus | queryDataAvailable | readData | closeHandle =>
      obtain rfl := Option.some.inj hhandle
      exact h
  | windows call =>
      cases call with
      | setTimeouts | sendRequest | receiveResponse =>
          obtain rfl := Option.some.inj hhandle
          exact h
      | wideLength | widen | lastError | crackUrl | findConnection | connect | emplaceConnection
      | openRequest => cases hhandle

/-- What holds of one transport while any number of threads send on it. -/
structure Shares {τ : Type} [DecidableEq τ]
    (s : Monitor.State τ (ℕ × HttpRequest) SendCall.Reply Thrown (Option HttpResponse) Pool) :
    Prop where
  /-- Between the calls of `Connection`, a host and port have one connection, and it only them. -/
  unique : s.owner = none → ∀ host port connection connection',
    s.shared.Serves host port connection → s.shared.Serves host port connection' →
    connection = connection'
  own : s.owner = none → ∀ host host' port port' connection,
    s.shared.Serves host port connection → s.shared.Serves host' port' connection →
    cWide host = cWide host' ∧ port = port'
  /-- The destructor closes no connection twice, and all but the lost ones. -/
  destructor : s.owner = none → s.shared.closes.Nodup ∧
    ∀ entry ∈ s.shared.opened, entry.2.2 ∈ s.shared.closes ∨ entry.2.2 ∈ s.shared.lost
  /-- A request is opened on a connection to the host and port of its own URL. -/
  requests : ∀ thread job history connection method path secure next,
    s.running thread =
      some ⟨job, history, .call (.windows (.openRequest connection method path secure)) next⟩ →
    ∃ components, (course history).components = some components ∧
      s.shared.Serves components.hostName components.port connection
  /-- A request handle is used and closed while it is open. -/
  handles : ∀ thread job history call next handle,
    s.running thread = some ⟨job, history, .call call next⟩ → handleOf call = some handle →
    (course history).handles = [handle]
  ended : ∀ ended ∈ s.finished, Sent ended.job.1 ended.history ended.result
  /-- The holder of the mutex can go on, whatever Windows replies. -/
  holder : ∀ thread, s.owner = some thread → ∀ outside,
    (Monitor.step poolMonitor (fun job => sendShared job.1 job.2) s
      (.advance thread outside)).isSome = true
  /-- While nobody holds it, every thread can. -/
  progress : s.owner = none → ∀ thread, (s.running thread).isSome = true → ∀ outside,
    (Monitor.step poolMonitor (fun job => sendShared job.1 job.2) s
      (.advance thread outside)).isSome = true

/-- The threads that send on one transport, from one without connections. -/
def poolThreads (τ : Type) [DecidableEq τ] :=
  Monitor.threads (τ := τ) poolMonitor (fun job : ℕ × HttpRequest => sendShared job.1 job.2)
    (fun pool => pool = ⟨[], [], []⟩)

theorem sends_share {τ : Type} [DecidableEq τ]
    {s : Monitor.State τ (ℕ × HttpRequest) SendCall.Reply Thrown (Option HttpResponse) Pool}
    (h : (poolThreads τ).Reachable (Monitor.Replies poolMonitor) s) : Shares s := by
  have hsound : Monitor.Sound poolRules (fun _ => permitted)
      (fun job history r _ => Sent job.1 history r) s := by
    apply Monitor.sound_reachable _ (fun job x => safe_sendShared job.1 job.2 x) h
    rintro pool rfl
    exact ⟨List.nodup_nil, List.nodup_nil, List.forall_mem_nil _, List.Perm.refl _⟩
  refine ⟨fun howner host port connection connection' => (hsound.resting howner).serves_unique,
    fun howner host host' port port' connection => (hsound.resting howner).serves_same,
    fun howner => (hsound.resting howner).closes, ?_, ?_, ?_,
    fun thread howner => hsound.holder_goes howner _, ?_⟩
  · intro thread job history connection method path secure next hrunning
    obtain ⟨view, hknows, hpermitted⟩ := hsound.permitted hrunning
    cases view with
    | held pool => exact hpermitted.elim
    | seen pool =>
        obtain ⟨components, hcomponents, hserves⟩ := hpermitted
        exact ⟨components, hcomponents, hserves.grows hknows.2⟩
  · intro thread job history call next handle hrunning hhandle
    obtain ⟨view, -, hpermitted⟩ := hsound.permitted hrunning
    exact handleOf_permitted hpermitted hhandle
  · intro ended hmem
    obtain ⟨_, _, hsent⟩ := hsound.finished ended hmem
    exact hsent
  · intro hfree thread hsome
    obtain ⟨running, hrunning⟩ := Option.isSome_iff_exists.mp hsome
    exact hsound.goes hrunning (Or.inl hfree) _

/-- Windows with a local server whose responses are empty. -/
def localSend (pool : Pool) : ∀ call : SendCall, Outcome call.Reply
  | .lock => .ok ()
  | .unlock => .ok ()
  | .windows (.findConnection key) => .ok (pool.connections.lookup key)
  | .windows (.connect _ _) => .ok (some ((pool.opened.map fun entry => entry.2.2).sum + 1))
  | .windows call => localWindows call
  | .queryStatus _ => .ok (some 200)
  | .queryDataAvailable _ => .ok (some 0)
  | .readData _ _ => .ok (some [])
  | .closeHandle _ => .ok ()

theorem possible_localSend (pool : Pool) (call : SendCall) :
    poolMonitor.possible pool call (localSend pool call) := by
  cases call with
  | lock | unlock | queryStatus | queryDataAvailable | closeHandle => trivial
  | readData handle room =>
      refine ⟨some [], rfl, ?_⟩
      rintro bytes ⟨rfl⟩
      exact Nat.zero_le room
  | windows call =>
      cases call with
      | findConnection => rfl
      | connect =>
          refine ⟨some ((pool.opened.map fun entry => entry.2.2).sum + 1), rfl, ?_⟩
          rintro handle ⟨rfl⟩ hmem
          have hle := List.single_le_sum (fun _ _ => Nat.zero_le _) _ hmem
          omega
      | wideLength | widen | lastError | crackUrl | emplaceConnection | openRequest | setTimeouts
      | sendRequest | receiveResponse => trivial

/-- A thread sends, and another up to its request, which goes over the same connection. -/
def sampleShared : List (ℕ × Option (ℕ × HttpRequest)) :=
  [(0, some (1, localRequest [] 1000)), (1, some (1, localRequest [] 50))] ++
    List.replicate 18 (0, none) ++ List.replicate 9 (1, none)

theorem sends_share_sample :
    ∃ s, Monitor.drive poolMonitor (fun job : ℕ × HttpRequest => sendShared job.1 job.2) localSend
        sampleShared ⟨⟨[], [], []⟩, none, fun _ => none, []⟩ = some s ∧
      s.finished.length = 1 ∧ s.shared.opened.length = 1 ∧ Shares s := by
  have hrun : (Monitor.drive poolMonitor (fun job : ℕ × HttpRequest => sendShared job.1 job.2)
      localSend sampleShared ⟨⟨[], [], []⟩, none, fun _ => none, []⟩).map
      (fun s => (s.finished.length, s.shared.opened.length)) = some (1, 1) := by decide +kernel
  obtain ⟨s, hs, hfinal⟩ := Option.map_eq_some_iff.mp hrun
  obtain ⟨hfinished, hopened⟩ := Prod.mk.inj hfinal
  refine ⟨s, hs, hfinished, hopened, sends_share ?_⟩
  exact Monitor.reachable_drive possible_localSend (.start ⟨rfl, rfl, fun _ => rfl, rfl⟩) hs

end Threads

end LivekitServer.WinHttpTransport
