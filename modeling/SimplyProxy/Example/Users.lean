import Mathlib.Logic.Function.Basic
import SimplyProxy.Base.KeyMap
import SimplyProxy.Base.Run
import SimplyProxy.Platform.Outcome

/-!
# The user store of the example server

`AppState` of `examples/server.rs`, the upstream that the proxy is tried out with. Its
methods take `&self` and run on any number of threads. A method is split where it touches
the shared state: `create_user` takes an id and later inserts, `update_user` takes a copy and
works on that, and `list_user` iterates over a `DashMap`.

The iterator of a `DashMap` is not part of the repository. It goes through the shards of the
map, each under the lock of the shard, so nobody writes to a shard while its entries are
collected. How the keys are spread over the shards is a parameter.

What a call reads from outside is an argument of its step: the salt, the readings of
`Utc::now()`, and the order in which the entries of a shard come.
-/

namespace SimplyProxy
namespace ExampleServer
open Runs

/-! ## Data -/

/-- Nanoseconds since the epoch. -/
abbrev DateTime := Int

structure User where
  id : UInt64
  emila : String
  password : String
  name : String
  createdAt : DateTime
  updatedAt : DateTime
deriving DecidableEq

structure CreateUser where
  email : String
  password : String
  name : String

structure UpdateUser where
  email : Option String
  password : Option String
  name : Option String

/-- Hashes a password with a salt; `none` when it fails. -/
abbrev Argon2 := String → String → Option String

/-- The shards of a `DashMap`, and the one that a key belongs to. -/
structure Shards where
  count : Nat
  of : UInt64 → Nat
  of_lt : ∀ id, of id < count

structure AppState where
  nextUserId : UInt64
  users : KeyMap UInt64 User

/-! ## Methods -/

def hashPassword (argon2 : Argon2) (salt password : String) : Except String String :=
  match argon2 salt password with
  | none => .error "Failed to hash password"
  | some hash => .ok hash

namespace AppState

def new : AppState := ⟨1, ∅⟩

def getUserById (self : AppState) (id : UInt64) : Option User := self.users.get id

/-- The first part of `create_user`: the id, by `fetch_add`. -/
def fetchId (self : AppState) : UInt64 × AppState :=
  (self.nextUserId, { self with nextUserId := self.nextUserId + 1 })

/-- The user that `create_user` makes with its id. -/
def newUser (argon2 : Argon2) (id : UInt64) (input : CreateUser) (salt : String)
    (createdAt updatedAt : DateTime) : Except String User := do
  let passwordHash ← hashPassword argon2 salt input.password
  return ⟨id, input.email, passwordHash, input.name, createdAt, updatedAt⟩

def insert (self : AppState) (user : User) : AppState :=
  { self with users := self.users.insert user.id user }

/-- What `update_user` does with the copy that it has taken. -/
def amended (argon2 : Argon2) (user : User) (input : UpdateUser) (salt : String) (now : DateTime) :
    Except String User := do
  let user := match input.email with
    | some email => { user with emila := email }
    | none => user
  let user ← match input.password with
    | some password => do
      let hash ← hashPassword argon2 salt password
      pure { user with password := hash }
    | none => pure user
  let user := match input.name with
    | some name => { user with name := name }
    | none => user
  return { user with updatedAt := now }

def deleteUser (self : AppState) (id : UInt64) : Option User × AppState :=
  (self.users.get id, { self with users := self.users.erase id })

/-- The keys in a shard. -/
def shardKeys (self : AppState) (shards : Shards) (shard : Nat) : List UInt64 :=
  self.users.keys.filter fun id => shards.of id = shard

variable {argon2 : Argon2} {id : UInt64} {input : CreateUser} {salt : String}
  {createdAt updatedAt : DateTime}

theorem newUser_id {user : User}
    (h : newUser argon2 id input salt createdAt updatedAt = .ok user) : user.id = id := by
  obtain ⟨hash, -, made⟩ := bind_eq_ok.mp h
  cases made
  rfl

theorem mem_shardKeys {self : AppState} {shards : Shards} {shard : Nat} :
    id ∈ self.shardKeys shards shard ↔
      shards.of id = shard ∧ ∃ user, self.getUserById id = some user := by
  simp only [shardKeys, List.mem_filter, decide_eq_true_eq, ← AList.mem_keys, KeyMap.mem_iff_get,
    getUserById, and_comm]

theorem shardKeys_nodup (self : AppState) (shards : Shards) (shard : Nat) :
    (self.shardKeys shards shard).Nodup :=
  self.users.keys_nodup.filter _

end AppState

/-! ## Steps -/

/-- A call that has begun. A listing has `found` the users of the shards before `shard`. -/
inductive Pending
  | create (id : UInt64) (input : CreateUser)
  | update (user : User) (input : UpdateUser)
  | list (shard : Nat) (found : List User)

structure State where
  app : AppState
  pending : Nat → Option Pending

inductive Action
  /-- `create_user` takes its id. -/
  | create (thread : Nat) (input : CreateUser)
  /-- The rest of `create_user`. -/
  | insert (thread : Nat) (salt : String) (createdAt updatedAt : DateTime)
  | get (id : UInt64)
  /-- `update_user` takes a copy of the user. -/
  | copy (thread : Nat) (id : UInt64) (input : UpdateUser)
  /-- The rest of `update_user`. -/
  | amend (thread : Nat) (salt : String) (now : DateTime)
  | delete (id : UInt64)
  /-- `list_user` begins. -/
  | list (thread : Nat)
  /-- It clones the users of the next shard. -/
  | visit (thread : Nat) (ids : List UInt64)
  /-- `list_user` ends. -/
  | collect (thread : Nat)

/-- The thread whose call goes on. -/
def Action.thread : Action → Option Nat
  | .create thread _ | .insert thread _ _ _ | .copy thread _ _ | .amend thread _ _
  | .list thread | .visit thread _ | .collect thread => some thread
  | .get _ | .delete _ => none

inductive Answer
  | pending
  | created (result : Except String User)
  | got (user : Option User)
  | updated (result : Except String User)
  | deleted (user : Option User)
  | listed (users : List User)

structure Event where
  action : Action
  answer : Answer

def start : State := ⟨.new, fun _ => none⟩

/-- The state with another call of a thread, or none. -/
def State.put (s : State) (thread : Nat) (call : Option Pending) : State :=
  { s with pending := Function.update s.pending thread call }

variable (shards : Shards) (argon2 : Argon2)

/-- One atomic step; `none` when it is not possible in this state. -/
def perform (s : State) : Action → Option (Answer × State)
  | .create thread input =>
    if (s.pending thread).isNone then
      let (id, app) := s.app.fetchId
      some (.pending, { s with app := app }.put thread (some (.create id input)))
    else none
  | .insert thread salt createdAt updatedAt =>
    match s.pending thread with
    | some (.create id input) =>
      match AppState.newUser argon2 id input salt createdAt updatedAt with
      | .error e => some (.created (.error e), s.put thread none)
      | .ok user => some (.created (.ok user), { s with app := s.app.insert user }.put thread none)
    | _ => none
  | .get id => some (.got (s.app.getUserById id), s)
  | .copy thread id input =>
    if (s.pending thread).isNone then
      match s.app.getUserById id with
      | none => some (.updated (.error "User not found"), s)
      | some user => some (.pending, s.put thread (some (.update user input)))
    else none
  | .amend thread salt now =>
    match s.pending thread with
    | some (.update user input) =>
      some (.updated (AppState.amended argon2 user input salt now), s.put thread none)
    | _ => none
  | .delete id =>
    let (user, app) := s.app.deleteUser id
    some (.deleted user, { s with app := app })
  | .list thread =>
    if (s.pending thread).isNone then
      some (.pending, s.put thread (some (.list 0 [])))
    else none
  | .visit thread ids =>
    match s.pending thread with
    | some (.list shard found) =>
      if shard < shards.count ∧ ids.Perm (s.app.shardKeys shards shard) then
        let users := ids.filterMap s.app.getUserById
        some (.pending, s.put thread (some (.list (shard + 1) (found ++ users))))
      else none
    | _ => none
  | .collect thread =>
    match s.pending thread with
    | some (.list shard found) =>
      if shard < shards.count then none else some (.listed found, s.put thread none)
    | _ => none

def Step (s : State) (e : Event) (s' : State) : Prop :=
  perform shards argon2 s e.action = some (e.answer, s')

/-- The steps, one rule for each way that an action can go. -/
inductive Moves (s : State) : Event → State → Prop
  | create {thread : Nat} {input : CreateUser} : s.pending thread = none →
      Moves s ⟨.create thread input, .pending⟩
        ({ s with app := s.app.fetchId.2 }.put thread (some (.create s.app.fetchId.1 input)))
  | insert {thread : Nat} {salt : String} {createdAt updatedAt : DateTime} {id : UInt64}
      {input : CreateUser} {user : User} : s.pending thread = some (.create id input) →
      AppState.newUser argon2 id input salt createdAt updatedAt = .ok user →
      Moves s ⟨.insert thread salt createdAt updatedAt, .created (.ok user)⟩
        ({ s with app := s.app.insert user }.put thread none)
  | unhashed {thread : Nat} {salt : String} {createdAt updatedAt : DateTime} {id : UInt64}
      {input : CreateUser} {e : String} : s.pending thread = some (.create id input) →
      AppState.newUser argon2 id input salt createdAt updatedAt = .error e →
      Moves s ⟨.insert thread salt createdAt updatedAt, .created (.error e)⟩ (s.put thread none)
  | get (id : UInt64) : Moves s ⟨.get id, .got (s.app.getUserById id)⟩ s
  | missed {thread : Nat} {id : UInt64} {input : UpdateUser} : s.pending thread = none →
      s.app.getUserById id = none →
      Moves s ⟨.copy thread id input, .updated (.error "User not found")⟩ s
  | copy {thread : Nat} {id : UInt64} {input : UpdateUser} {user : User} :
      s.pending thread = none → s.app.getUserById id = some user →
      Moves s ⟨.copy thread id input, .pending⟩ (s.put thread (some (.update user input)))
  | amend {thread : Nat} {salt : String} {now : DateTime} {user : User} {input : UpdateUser} :
      s.pending thread = some (.update user input) →
      Moves s ⟨.amend thread salt now, .updated (AppState.amended argon2 user input salt now)⟩
        (s.put thread none)
  | delete (id : UInt64) : Moves s ⟨.delete id, .deleted (s.app.deleteUser id).1⟩
      { s with app := (s.app.deleteUser id).2 }
  | list {thread : Nat} : s.pending thread = none →
      Moves s ⟨.list thread, .pending⟩ (s.put thread (some (.list 0 [])))
  | visit {thread : Nat} {ids : List UInt64} {shard : Nat} {found : List User} :
      s.pending thread = some (.list shard found) → ids.Perm (s.app.shardKeys shards shard) →
      Moves s ⟨.visit thread ids, .pending⟩
        (s.put thread (some (.list (shard + 1) (found ++ ids.filterMap s.app.getUserById))))
  | collect {thread : Nat} {shard : Nat} {found : List User} :
      s.pending thread = some (.list shard found) → shards.count ≤ shard →
      Moves s ⟨.collect thread, .listed found⟩ (s.put thread none)

variable {shards argon2} {s s' : State} {e : Event}

theorem Step.moves (h : Step shards argon2 s e s') : Moves shards argon2 s e s' := by
  obtain ⟨action, answer⟩ := e
  cases action with
  | create thread input =>
    simp only [Step, perform, Option.isNone_iff_eq_none, Option.ite_none_right_eq_some,
      Option.some.injEq, Prod.mk.injEq] at h
    obtain ⟨idle, rfl, rfl⟩ := h
    exact .create idle
  | insert thread salt createdAt updatedAt =>
    simp only [Step, perform] at h
    split at h
    · next id input held =>
      split at h
      · next failed =>
        obtain ⟨rfl, rfl⟩ := Prod.mk.inj (Option.some.inj h)
        exact .unhashed held failed
      · next made =>
        obtain ⟨rfl, rfl⟩ := Prod.mk.inj (Option.some.inj h)
        exact .insert held made
    · cases h
  | get id =>
    obtain ⟨rfl, rfl⟩ := Prod.mk.inj (Option.some.inj h)
    exact .get id
  | copy thread id input =>
    simp only [Step, perform, Option.isNone_iff_eq_none, Option.ite_none_right_eq_some] at h
    obtain ⟨idle, h⟩ := h
    split at h
    · next absent =>
      obtain ⟨rfl, rfl⟩ := Prod.mk.inj (Option.some.inj h)
      exact .missed idle absent
    · next found =>
      obtain ⟨rfl, rfl⟩ := Prod.mk.inj (Option.some.inj h)
      exact .copy idle found
  | amend thread salt now =>
    simp only [Step, perform] at h
    split at h
    · next held =>
      obtain ⟨rfl, rfl⟩ := Prod.mk.inj (Option.some.inj h)
      exact .amend held
    · cases h
  | delete id =>
    obtain ⟨rfl, rfl⟩ := Prod.mk.inj (Option.some.inj h)
    exact .delete id
  | list thread =>
    simp only [Step, perform, Option.isNone_iff_eq_none, Option.ite_none_right_eq_some,
      Option.some.injEq, Prod.mk.injEq] at h
    obtain ⟨idle, rfl, rfl⟩ := h
    exact .list idle
  | visit thread ids =>
    simp only [Step, perform] at h
    split at h
    · next held =>
      obtain ⟨⟨-, all⟩, h⟩ := Option.ite_none_right_eq_some.mp h
      obtain ⟨rfl, rfl⟩ := Prod.mk.inj (Option.some.inj h)
      exact .visit held all
    · cases h
  | collect thread =>
    simp only [Step, perform] at h
    split at h
    · next held =>
      obtain ⟨done, h⟩ := Option.ite_none_left_eq_some.mp h
      obtain ⟨rfl, rfl⟩ := Prod.mk.inj (Option.some.inj h)
      exact .collect held (Nat.le_of_not_lt done)
    · cases h

/-- What another call of a thread leaves pending. -/
theorem State.pending_put (s : State) (thread : Nat) (call : Option Pending) (t : Nat) :
    (s.put thread call).pending t = if t = thread then call else s.pending t :=
  Function.update_apply _ _ _ _

end ExampleServer

end SimplyProxy
