import SimplyProxy.Base.JsonText
import SimplyProxy.Example.Users

/-!
# The responses of the example server

The handlers of `examples/server.rs`: what they make of the answers of the user store. A user
is serialized without its password.

`responses_secret`: two runs in which the same calls are made in the same order and at the same
readings of the clock, with other passwords and other salts, have the same responses. The runs
are compared as long as hashing works, since it may fail for some passwords only.
-/

namespace SimplyProxy
namespace ExampleServer
open Runs JsonText

/-! ## Responses -/

inductive Body
  | json (doc : Doc)
  | text (text : String)
  | empty

structure Response where
  status : UInt16
  body : Body

/-- `Serialize` of a user; `rfc3339` prints a time. -/
def User.toJson (rfc3339 : DateTime → String) (u : User) : Doc :=
  .obj [("id", .num ⟨false, u.id.toNat, [], none⟩), ("emila", .str u.emila), ("name", .str u.name),
    ("created_at", .str (rfc3339 u.createdAt)), ("updated_at", .str (rfc3339 u.updatedAt))]

section Handlers
variable (rfc3339 : DateTime → String)

/-- Of `get_user_handler` and `delete_user_handler`. -/
def respondFound : Option User → Response
  | some user => ⟨200, .json (user.toJson rfc3339)⟩
  | none => ⟨404, .empty⟩

/-- Of `create_user_handler` and `update_user_handler`. -/
def respondResult : Except String User → Response
  | .ok user => ⟨200, .json (user.toJson rfc3339)⟩
  | .error e => ⟨500, .text e⟩

def listUsersHandler (users : List User) : Response :=
  ⟨200, .json (.arr (users.map (User.toJson rfc3339)))⟩

/-- The response to a call, when it has ended. -/
def respond : Answer → Option Response
  | .pending => none
  | .created result => some (respondResult rfc3339 result)
  | .got user => some (respondFound rfc3339 user)
  | .updated result => some (respondResult rfc3339 result)
  | .deleted user => some (respondFound rfc3339 user)
  | .listed users => some (listUsersHandler rfc3339 users)

end Handlers

/-! ## Without passwords -/

def User.redacted (u : User) : User := { u with password := "" }

def CreateUser.redacted (input : CreateUser) : CreateUser := { input with password := "" }

/-- That a password is to be changed is not secret. -/
def UpdateUser.redacted (input : UpdateUser) : UpdateUser :=
  { input with password := input.password.map fun _ => "" }

def Pending.redacted : Pending → Pending
  | .create id input => .create id input.redacted
  | .update user input => .update user.redacted input.redacted
  | .list shard found => .list shard (found.map User.redacted)

def Action.redacted : Action → Action
  | .create thread input => .create thread input.redacted
  | .insert thread _ createdAt updatedAt => .insert thread "" createdAt updatedAt
  | .copy thread id input => .copy thread id input.redacted
  | .amend thread _ now => .amend thread "" now
  | action => action

/-- The answer is not that hashing has failed. -/
def Event.Hashed (e : Event) : Prop :=
  e.answer ≠ .created (.error "Failed to hash password") ∧
    e.answer ≠ .updated (.error "Failed to hash password")

/-- Hashes to nothing. -/
def noHash : Argon2 := fun _ _ => some ""

variable {shards shards' : Shards} {argon2 argon2' : Argon2} {rfc3339 : DateTime → String}

theorem hashPassword_cases (argon2 : Argon2) (salt password : String) :
    hashPassword argon2 salt password = .error "Failed to hash password" ∨
      ∃ hash, hashPassword argon2 salt password = .ok hash := by
  unfold hashPassword
  cases argon2 salt password with
  | none => exact .inl rfl
  | some hash => exact .inr ⟨hash, rfl⟩

theorem newUser_of_error {id : UInt64} {input : CreateUser} {salt e : String}
    {createdAt updatedAt : DateTime}
    (h : AppState.newUser argon2 id input salt createdAt updatedAt = .error e) :
    e = "Failed to hash password" := by
  unfold AppState.newUser at h
  rcases hashPassword_cases argon2 salt input.password with failed | ⟨hash, hashed⟩
  · rw [failed] at h
    exact (Except.error.inj h).symm
  · rw [hashed] at h
    cases h

/-- A new user, but for its password. -/
theorem newUser_of_ok {id : UInt64} {input : CreateUser} {salt : String}
    {createdAt updatedAt : DateTime} {user : User}
    (h : AppState.newUser argon2 id input salt createdAt updatedAt = .ok user) :
    AppState.newUser noHash id input.redacted "" createdAt updatedAt = .ok user.redacted := by
  obtain ⟨hash, -, made⟩ := bind_eq_ok.mp h
  cases made
  rfl

/-- An amended user, but for its password, unless hashing fails. -/
theorem amended_cases (argon2 : Argon2) (user : User) (input : UpdateUser) (salt : String)
    (now : DateTime) :
    AppState.amended argon2 user input salt now = .error "Failed to hash password" ∨
      ∃ user', AppState.amended argon2 user input salt now = .ok user' ∧
        AppState.amended noHash user.redacted input.redacted "" now = .ok user'.redacted := by
  obtain ⟨email, password, name⟩ := input
  cases password with
  | none => exact .inr (by cases email <;> cases name <;> exact ⟨_, rfl, rfl⟩)
  | some password =>
    unfold AppState.amended
    rcases hashPassword_cases argon2 salt password with failed | ⟨hash, hashed⟩
    · exact .inl (by simp only [failed]; rfl)
    · simp only [hashed]
      exact .inr (by cases email <;> cases name <;> exact ⟨_, rfl, rfl⟩)

/-! ## Two runs -/

/-- The stores differ in passwords only. -/
structure AppState.Alike (app app' : AppState) : Prop where
  next : app.nextUserId = app'.nextUserId
  users : ∀ id, (app.getUserById id).map User.redacted = (app'.getUserById id).map User.redacted

structure State.Alike (s t : State) : Prop where
  app : s.app.Alike t.app
  pending : ∀ thread, (s.pending thread).map Pending.redacted =
    (t.pending thread).map Pending.redacted

variable {s s' t t' : State} {e f : Event}

theorem State.Alike.refl (s : State) : s.Alike s := ⟨⟨rfl, fun _ => rfl⟩, fun _ => rfl⟩

theorem State.Alike.put (h : s.Alike t) (thread : Nat) {call call' : Option Pending}
    (same : call.map Pending.redacted = call'.map Pending.redacted) :
    (s.put thread call).Alike (t.put thread call') := by
  refine ⟨h.app, fun other => ?_⟩
  rw [State.pending_put, State.pending_put]
  split
  · exact same
  · exact h.pending other

theorem State.Alike.withApp (h : s.Alike t) {app app' : AppState} (apps : app.Alike app') :
    State.Alike ⟨app, s.pending⟩ ⟨app', t.pending⟩ :=
  ⟨apps, h.pending⟩

/-- The call that a thread of the other run has pending. -/
theorem State.Alike.held (h : s.Alike t) {thread : Nat} {call call' : Pending}
    (left : s.pending thread = some call) (right : t.pending thread = some call') :
    call.redacted = call'.redacted := by
  have same := h.pending thread
  rw [left, right] at same
  exact Option.some.inj same

theorem AppState.Alike.insert {app app' : AppState} (h : app.Alike app') {user user' : User}
    (same : user.redacted = user'.redacted) : (app.insert user).Alike (app'.insert user') := by
  have own : user.id = user'.id := by
    show user.redacted.id = user'.redacted.id
    rw [same]
  refine ⟨h.next, fun id => ?_⟩
  show (KeyMap.get (AList.insert _ _ _) id).map _ = (KeyMap.get (AList.insert _ _ _) id).map _
  rw [KeyMap.get_insert, KeyMap.get_insert, own]
  split
  · rw [Option.map_some, Option.map_some, same]
  · exact h.users id

theorem AppState.Alike.deleteUser {app app' : AppState} (h : app.Alike app') (id : UInt64) :
    (app.deleteUser id).2.Alike (app'.deleteUser id).2 := by
  refine ⟨h.next, fun other => ?_⟩
  show (KeyMap.get (AList.erase _ _) other).map _ = (KeyMap.get (AList.erase _ _) other).map _
  rw [KeyMap.get_erase, KeyMap.get_erase]
  split
  · rfl
  · exact h.users other

/-- Under the same keys there are the same users, but for passwords. -/
theorem AppState.Alike.clones {app app' : AppState} (h : app.Alike app') (ids : List UInt64) :
    (ids.filterMap app.getUserById).map User.redacted =
      (ids.filterMap app'.getUserById).map User.redacted := by
  rw [List.map_filterMap, List.map_filterMap]
  simp only [h.users]

theorem respondResult_congr {user user' : User} (same : user.redacted = user'.redacted) :
    respondResult rfc3339 (.ok user) = respondResult rfc3339 (.ok user') := by
  show respondResult rfc3339 (.ok user.redacted) = respondResult rfc3339 (.ok user'.redacted)
  rw [same]

theorem respondFound_congr {user user' : Option User}
    (same : user.map User.redacted = user'.map User.redacted) :
    respondFound rfc3339 user = respondFound rfc3339 user' := by
  cases user with
  | none =>
    obtain rfl := Option.map_eq_none_iff.mp same.symm
    rfl
  | some user =>
    obtain ⟨user', rfl, equal⟩ := Option.map_eq_some_iff.mp same.symm
    exact respondResult_congr equal.symm

theorem listUsersHandler_congr {users users' : List User}
    (same : users.map User.redacted = users'.map User.redacted) :
    listUsersHandler rfc3339 users = listUsersHandler rfc3339 users' := by
  have docs := congrArg (List.map (User.toJson rfc3339)) same
  rw [List.map_map, List.map_map] at docs
  exact congrArg (fun docs => (⟨200, .json (.arr docs)⟩ : Response)) docs

/-- New users of the same call, but for passwords. -/
theorem newUser_alike {id : UInt64} {input input' : CreateUser} {salt salt' : String}
    {createdAt updatedAt : DateTime} {user user' : User} (inputs : input.redacted = input'.redacted)
    (made : AppState.newUser argon2 id input salt createdAt updatedAt = .ok user)
    (made' : AppState.newUser argon2' id input' salt' createdAt updatedAt = .ok user') :
    user.redacted = user'.redacted := by
  have left := newUser_of_ok made
  rw [inputs, newUser_of_ok made'] at left
  exact (Except.ok.inj left).symm

/-- Responses to the same update, but for passwords, when hashing works. -/
theorem respondResult_amended {user user' : User} {input input' : UpdateUser}
    {salt salt' : String} {now : DateTime} (users : user.redacted = user'.redacted)
    (inputs : input.redacted = input'.redacted)
    (hashed : AppState.amended argon2 user input salt now ≠ .error "Failed to hash password")
    (hashed' : AppState.amended argon2' user' input' salt' now ≠
      .error "Failed to hash password") :
    respondResult rfc3339 (AppState.amended argon2 user input salt now) =
      respondResult rfc3339 (AppState.amended argon2' user' input' salt' now) := by
  obtain ⟨u, done, left⟩ := (amended_cases argon2 user input salt now).resolve_left hashed
  obtain ⟨u', done', right⟩ := (amended_cases argon2' user' input' salt' now).resolve_left hashed'
  rw [users, inputs, right] at left
  rw [done, done']
  exact respondResult_congr (Except.ok.inj left).symm

/-- Steps of the same action, but for passwords and salts. -/
theorem State.Alike.step (h : s.Alike t) (hs : Step shards argon2 s e s')
    (ht : Step shards' argon2' t f t') (hashed : e.Hashed) (hashed' : f.Hashed)
    (same : e.action.redacted = f.action.redacted) :
    respond rfc3339 e.answer = respond rfc3339 f.answer ∧ s'.Alike t' := by
  cases hs.moves with
  | @create thread input idle =>
    cases ht.moves with
    | @create thread' input' idle' =>
      obtain ⟨rfl, inputs⟩ := Action.create.inj same
      have next : s.app.fetchId.2.Alike t.app.fetchId.2 :=
        ⟨congrArg (· + 1) h.app.next, h.app.users⟩
      refine ⟨rfl, (h.withApp next).put thread ?_⟩
      show some (Pending.create s.app.nextUserId input.redacted) =
        some (Pending.create t.app.nextUserId input'.redacted)
      rw [h.app.next, inputs]
    | _ => cases same
  | @insert thread salt createdAt updatedAt id input user held made =>
    cases ht.moves with
    | @insert thread' salt' createdAt' updatedAt' id' input' user' held' made' =>
      obtain ⟨rfl, -, rfl, rfl⟩ := Action.insert.inj same
      obtain ⟨rfl, inputs⟩ := Pending.create.inj (h.held held held')
      have users : user.redacted = user'.redacted := newUser_alike inputs made made'
      exact ⟨congrArg some (respondResult_congr users),
        (h.withApp (h.app.insert users)).put thread rfl⟩
    | unhashed held' failed => exact absurd (by rw [newUser_of_error failed]) hashed'.1
    | _ => cases same
  | unhashed held failed => exact absurd (by rw [newUser_of_error failed]) hashed.1
  | get id =>
    cases ht.moves with
    | get id' =>
      obtain rfl := Action.get.inj same
      exact ⟨congrArg some (respondFound_congr (h.app.users id)), h⟩
    | _ => cases same
  | @missed thread id input idle absent =>
    cases ht.moves with
    | missed idle' absent' => exact ⟨rfl, h⟩
    | @copy thread' id' input' user idle' found =>
      obtain ⟨-, rfl, -⟩ := Action.copy.inj same
      have users := h.app.users id
      rw [absent, found] at users
      cases users
    | _ => cases same
  | @copy thread id input user idle found =>
    cases ht.moves with
    | @missed thread' id' input' idle' absent =>
      obtain ⟨-, rfl, -⟩ := Action.copy.inj same
      have users := h.app.users id
      rw [absent, found] at users
      cases users
    | @copy thread' id' input' user' idle' found' =>
      obtain ⟨rfl, rfl, inputs⟩ := Action.copy.inj same
      have users := h.app.users id
      rw [found, found'] at users
      refine ⟨rfl, h.put thread ?_⟩
      show some (Pending.update user.redacted input.redacted) = some (Pending.update _ _)
      rw [Option.some.inj users, inputs]
    | _ => cases same
  | @amend thread salt now user input held =>
    cases ht.moves with
    | @amend thread' salt' now' user' input' held' =>
      obtain ⟨rfl, -, rfl⟩ := Action.amend.inj same
      obtain ⟨users, inputs⟩ := Pending.update.inj (h.held held held')
      refine ⟨congrArg some (respondResult_amended users inputs ?_ ?_), h.put thread rfl⟩
      · exact fun failed => hashed.2 (congrArg Answer.updated failed)
      · exact fun failed => hashed'.2 (congrArg Answer.updated failed)
    | _ => cases same
  | delete id =>
    cases ht.moves with
    | delete id' =>
      obtain rfl := Action.delete.inj same
      exact ⟨congrArg some (respondFound_congr (h.app.users id)), h.withApp (h.app.deleteUser id)⟩
    | _ => cases same
  | @list thread idle =>
    cases ht.moves with
    | list idle' =>
      obtain rfl := Action.list.inj same
      exact ⟨rfl, h.put thread rfl⟩
    | _ => cases same
  | @visit thread ids shard found held all =>
    cases ht.moves with
    | @visit thread' ids' shard' found' held' all' =>
      obtain ⟨rfl, rfl⟩ := Action.visit.inj same
      obtain ⟨rfl, founds⟩ := Pending.list.inj (h.held held held')
      refine ⟨rfl, h.put thread ?_⟩
      rw [Option.map_some, Option.map_some, Pending.redacted, Pending.redacted, List.map_append,
        List.map_append, founds, h.app.clones]
    | _ => cases same
  | @collect thread shard found held done =>
    cases ht.moves with
    | @collect thread' shard' found' held' done' =>
      obtain rfl := Action.collect.inj same
      obtain ⟨-, founds⟩ := Pending.list.inj (h.held held held')
      exact ⟨congrArg some (listUsersHandler_congr founds), h.put thread rfl⟩
    | _ => cases same

/-- Two runs whose calls and readings of the clock are the same but for passwords and salts, as
long as hashing works: they have the same responses, whatever the hashes are. -/
theorem responses_secret {events events' : List Event}
    (run : Run (Step shards argon2) start events s)
    (run' : Run (Step shards' argon2') start events' t) (hashed : ∀ e ∈ events, e.Hashed)
    (hashed' : ∀ e ∈ events', e.Hashed)
    (same : events.map (fun e => e.action.redacted) = events'.map fun e => e.action.redacted) :
    events.map (fun e => respond rfc3339 e.answer) =
      events'.map fun e => respond rfc3339 e.answer := by
  refine (Run.alike (fun {s t e f s' t'} alike first second same => ?_) (State.Alike.refl start)
    (run.restrict hashed) (run'.restrict hashed') same).1
  exact alike.step first.1 second.1 first.2 second.2 same

/-- A user is created and looked up. -/
def signUp (password hash : String) : List Event :=
  [⟨.create 0 ⟨"ada@b.c", password, "Ada"⟩, .pending⟩,
    ⟨.insert 0 "salt" 5 6, .created (.ok ⟨1, "ada@b.c", hash, "Ada", 5, 6⟩)⟩,
    ⟨.get 1, .got (some ⟨1, "ada@b.c", hash, "Ada", 5, 6⟩)⟩]

theorem signUp_run (shards : Shards) (password hash : String) :
    ∃ s, Run (Step shards fun _ _ => some hash) start (signUp password hash) s := by
  have run : Run (Step shards fun _ _ => some hash) start [] start := .nil
  have run := run.snoc (a := (⟨.create 0 ⟨"ada@b.c", password, "Ada"⟩, .pending⟩ : Event)) rfl
  have run := run.snoc (a := (⟨.insert 0 "salt" 5 6,
    .created (.ok ⟨1, "ada@b.c", hash, "Ada", 5, 6⟩)⟩ : Event)) rfl
  exact ⟨_, run.snoc rfl⟩

theorem signUp_hashed (password hash : String) : ∀ e ∈ signUp password hash, e.Hashed := by
  simp [signUp, Event.Hashed]

theorem responses_secret_signUp :
    (signUp "pass" "f00d").map (fun e => respond toString e.answer) =
      (signUp "word" "cafe").map fun e => respond toString e.answer := by
  have shards : Shards := ⟨1, fun _ => 0, fun _ => Nat.one_pos⟩
  obtain ⟨s, run⟩ := signUp_run shards "pass" "f00d"
  obtain ⟨t, run'⟩ := signUp_run shards "word" "cafe"
  exact responses_secret run run' (signUp_hashed _ _) (signUp_hashed _ _) rfl

end ExampleServer

end SimplyProxy
