import Mathlib.Data.Finmap
import Mathlib.Logic.Function.Basic
import N8n.Foundations.Runs

/-!
# The cache in memory and in Redis

A hash is an object in the memory cache and a native hash in Redis, which has no hash without
fields. Nothing expires or is evicted, no call has a `refreshFn`, and arguments are values:
what a backend does to the objects of its caller is not modelled.
-/

namespace N8n.Caching
open N8n.Runs

abbrev Fields (V : Type) := Finmap fun _ : String => V

/-- A value that is cached, where objects are told from the others. -/
inductive Value (V : Type) where
  | other (value : V)
  | hash (fields : Fields V)

inductive RedisValue (V : Type) where
  | text (value : Value V)
  | hash (fields : Fields V)

/-- The store of either backend. -/
inductive Cache (V : Type) where
  | memory (store : String → Option (Value V))
  | redis (store : String → Option (RedisValue V))

/-- The errors of Redis. -/
inductive CacheError where
  | wrongType
  | wrongNumberOfArguments
  deriving DecidableEq, Repr

/-- What a call gives. A property that all objects inherit is no value of the cache. -/
inductive Outcome (V : Type) where
  | undefined
  | value (value : Value V)
  | field (value : V)
  | inherited (name : String)

abbrev Answer (V : Type) := Except CacheError (Outcome V)

def Outcome.ofValue {V : Type} (value : Option (Value V)) : Outcome V :=
  (value.map .value).getD .undefined

def Outcome.ofField {V : Type} (value : Option V) : Outcome V := (value.map .field).getD .undefined

/-- What is asked of the language about values. Assigning to `__proto__` makes no property. -/
structure Language (V : Type) where
  isFalsy : V → Bool
  isNull : V → Bool
  inherits : String → Bool
  propertyOf : V → String → Option (Outcome V)
  assignProto : Fields V → Fields V → Fields V

namespace Language
variable {V : Type} (lang : Language V)

def falsy : Value V → Bool
  | .other value => lang.isFalsy value
  | .hash _ => false

def property : Value V → String → Option (Outcome V)
  | .other value, name => lang.propertyOf value name
  | .hash fields, name =>
    match fields.lookup name with
    | some value => some (.field value)
    | none => if lang.inherits name then some (.inherited name) else none

/-- `Object.assign`. -/
def assign : Value V → Fields V → Value V
  | .other value, _ => .other value
  | .hash fields, source =>
    .hash (if "__proto__" ∈ source then lang.assignProto fields source else source ∪ fields)

end Language

def Value.without {V : Type} : Value V → String → Value V
  | .other value, _ => .other value
  | .hash fields, name => .hash (fields.erase name)

namespace Redis
variable {V : Type} (store : String → Option (RedisValue V))

def get (key : String) : Except CacheError (Option (Value V)) :=
  match store key with
  | none => .ok none
  | some (.text value) => .ok (some value)
  | some (.hash _) => .error .wrongType

def hgetall (key : String) : Except CacheError (Fields V) :=
  match store key with
  | none => .ok ∅
  | some (.hash fields) => .ok fields
  | some (.text _) => .error .wrongType

def hget (key field : String) : Except CacheError (Option V) :=
  (hgetall store key).map (Finmap.lookup field)

variable [DecidableEq V]

def hset (key : String) (fieldValueRecord : Fields V) :
    Except CacheError (String → Option (RedisValue V)) :=
  if fieldValueRecord = ∅ then .error .wrongNumberOfArguments
  else (hgetall store key).map fun fields =>
    Function.update store key (some (.hash (fieldValueRecord ∪ fields)))

/-- A hash that loses its last field is deleted. -/
def hdel (key field : String) : Except CacheError (String → Option (RedisValue V)) :=
  (hgetall store key).map fun fields =>
    Function.update store key
      (if fields.erase field = ∅ then none else some (.hash (fields.erase field)))

end Redis

namespace Cache
variable {V : Type} (lang : Language V) (cache : Cache V)

def storeGet (key : String) : Except CacheError (Option (Value V)) :=
  match cache with
  | .memory store => .ok (store key)
  | .redis store => Redis.get store key

def storeSet (key : String) (value : Value V) : Cache V :=
  match cache with
  | .memory store => .memory (Function.update store key (some value))
  | .redis store => .redis (Function.update store key (some (.text value)))

def storeDel (key : String) : Cache V :=
  match cache with
  | .memory store => .memory (Function.update store key none)
  | .redis store => .redis (Function.update store key none)

def set (key : String) (value : Value V) : Cache V :=
  if key = "" ∨ lang.falsy value then cache else cache.storeSet key value

def get (key : String) (fallbackValue : Option (Value V)) : Except CacheError (Option (Value V)) :=
  if key = "" then .ok none
  else (cache.storeGet key).map (·.or fallbackValue)

def delete (key : String) : Cache V := if key = "" then cache else cache.storeDel key

def getHash (key : String) (fallbackValue : Option (Value V)) :
    Except CacheError (Option (Value V)) :=
  match cache with
  | .redis store =>
    (Redis.hgetall store key).map fun fields => (some (.hash fields)).or fallbackValue
  | .memory _ => (cache.get key none).map (·.or fallbackValue)

def getHashValue (cacheKey hashKey : String) (fallbackValue : Option V) : Answer V :=
  match cache with
  | .redis store =>
    (Redis.hget store cacheKey hashKey).map fun hashValue =>
      .ofField (hashValue.or fallbackValue)
  | .memory store =>
    .ok (((store cacheKey).bind (lang.property · hashKey)).getD (.ofField fallbackValue))

variable [DecidableEq V]

def setHash (key : String) (hash : Fields V) : Except CacheError (Cache V) :=
  if key = "" then .ok cache
  else if hash.any fun _ value => lang.isNull value then .ok cache
  else
    match cache with
    | .redis store => (Redis.hset store key hash).map .redis
    | .memory _ => (cache.get key none).map fun hashObject =>
        cache.set lang key (lang.assign (hashObject.getD (.hash ∅)) hash)

def deleteFromHash (cacheKey hashKey : String) : Except CacheError (Cache V) :=
  if cacheKey = "" ∨ hashKey = "" then .ok cache
  else
    match cache with
    | .redis store => (Redis.hdel store cacheKey hashKey).map .redis
    | .memory _ => (cache.get cacheKey none).map fun hashObject =>
        match hashObject with
        | none => cache
        | some hashObject =>
          if lang.falsy hashObject then cache
          else cache.storeSet cacheKey (hashObject.without hashKey)

end Cache

inductive Call (V : Type) where
  | set (key : String) (value : Value V)
  | get (key : String) (fallbackValue : Option (Value V))
  | delete (key : String)
  | setHash (key : String) (hash : Fields V)
  | getHash (key : String) (fallbackValue : Option (Value V))
  | getHashValue (cacheKey hashKey : String) (fallbackValue : Option V)
  | deleteFromHash (cacheKey hashKey : String)

inductive KeyUse where
  | plain
  | hash
  deriving DecidableEq, Repr

namespace Call
variable {V : Type}

def keyUse : Call V → Option (String × KeyUse)
  | .set key _ | .get key _ => some (key, .plain)
  | .delete _ => none
  | .setHash key _ | .getHash key _ | .getHashValue key _ _ | .deleteFromHash key _ =>
    some (key, .hash)

section
variable [DecidableEq V] (lang : Language V) (cache : Cache V)

/-- A call that throws leaves the cache as it was. -/
def settle : Except CacheError (Cache V) → Cache V × Answer V
  | .ok cache => (cache, .ok .undefined)
  | .error error => (cache, .error error)

def perform : Call V → Cache V × Answer V
  | .set key value => (cache.set lang key value, .ok .undefined)
  | .get key fallbackValue => (cache, (cache.get key fallbackValue).map .ofValue)
  | .delete key => (cache.delete key, .ok .undefined)
  | .setHash key hash => settle cache (cache.setHash lang key hash)
  | .getHash key fallbackValue => (cache, (cache.getHash key fallbackValue).map .ofValue)
  | .getHashValue cacheKey hashKey fallbackValue =>
    (cache, cache.getHashValue lang cacheKey hashKey fallbackValue)
  | .deleteFromHash cacheKey hashKey => settle cache (cache.deleteFromHash lang cacheKey hashKey)

def next (call : Call V) : Cache V := (call.perform lang cache).1

end

/-- The call gives a field the name of the accessor `__proto__`. -/
def NamesProto : Call V → Prop
  | .setHash _ hash => "__proto__" ∈ hash
  | _ => False

/-- What the memory cache must hold for the call to give the same in Redis. -/
def GivesTheSame (lang : Language V) : Cache V → Call V → Prop
  | .memory _, .setHash key hash => "__proto__" ∉ hash ∧ (hash = ∅ → key = "")
  | .memory store, .getHash key fallbackValue => store key = none → fallbackValue = some (.hash ∅)
  | .memory store, .getHashValue cacheKey hashKey _ =>
    ∀ fields, store cacheKey = some (.hash fields) → hashKey ∈ fields ∨ lang.inherits hashKey = false
  | _, _ => True

end Call

section
variable {V : Type} [DecidableEq V] (lang : Language V)

/-- What the calls give, one after the other. -/
def answers (cache : Cache V) : List (Call V) → List (Answer V)
  | [] => []
  | call :: calls => (call.perform lang cache).2 :: answers (call.next lang cache) calls

def uses {V : Type} (calls : List (Call V)) : List (String × KeyUse) := calls.filterMap Call.keyUse

/-- Each key is used only as a plain key or only as the key of a hash. -/
def SeparateKeys {V : Type} (calls : List (Call V)) : Prop :=
  ∀ use ∈ uses calls, ∀ use' ∈ uses calls, use.1 = use'.1 → use.2 = use'.2

instance {V : Type} (calls : List (Call V)) : Decidable (SeparateKeys calls) :=
  inferInstanceAs
    (Decidable (∀ use ∈ uses calls, ∀ use' ∈ uses calls, use.1 = use'.1 → use.2 = use'.2))

end

/-- The entries of a hash key. A hash without fields is in the memory cache only. -/
def SameHash {V : Type} [DecidableEq V] (value : Option (Value V))
    (redisValue : Option (RedisValue V)) : Prop :=
  (value = none ∧ redisValue = none) ∨
    ∃ fields, value = some (.hash fields) ∧
      redisValue = if fields = ∅ then none else some (.hash fields)

structure Agree {V : Type} [DecidableEq V] (calls : List (Call V))
    (memory : String → Option (Value V)) (redis : String → Option (RedisValue V)) : Prop where
  plain : ∀ key, (key, KeyUse.plain) ∈ uses calls → redis key = (memory key).map .text
  hash : ∀ key, (key, KeyUse.hash) ∈ uses calls → SameHash (memory key) (redis key)
  empty : memory "" = none

section
variable {V : Type} {calls : List (Call V)}

theorem mem_uses {call : Call V} {use : String × KeyUse} (hcall : call ∈ calls)
    (h : call.keyUse = some use) : use ∈ uses calls :=
  List.mem_filterMap.mpr ⟨call, hcall, h⟩

theorem SeparateKeys.not_hash (h : SeparateKeys calls) {key : String}
    (hplain : (key, KeyUse.plain) ∈ uses calls) : (key, KeyUse.hash) ∉ uses calls :=
  fun hhash => KeyUse.noConfusion (h _ hplain _ hhash rfl)

theorem Outcome.ofValue_inj {value value' : Option (Value V)} :
    Outcome.ofValue value = Outcome.ofValue value' ↔ value = value' := by
  cases value <;> cases value' <;> simp [Outcome.ofValue]

theorem Outcome.ofField_ne_inherited {value : Option V} {name : String} :
    Outcome.ofField value ≠ .inherited name := by
  cases value <;> simp [Outcome.ofField]

theorem not_namesProto {lang : Language V} {call : Call V}
    {store : String → Option (Value V)}
    (h : call.GivesTheSame lang (.memory store)) : ¬ call.NamesProto := by
  cases call with
  | setHash => exact h.1
  | _ => exact id

theorem union_eq_empty {fields source : Fields V} (h : source ∪ fields = ∅) : source = ∅ := by
  refine Finmap.ext_lookup fun name => ?_
  have hname : name ∉ source ∪ fields := h ▸ Finmap.notMem_empty
  rw [Finmap.mem_union, not_or] at hname
  rw [Finmap.lookup_empty, Finmap.lookup_eq_none]
  exact hname.1

end

section
variable {V : Type} [DecidableEq V] {lang : Language V} {calls : List (Call V)}
  {memory : String → Option (Value V)} {redis : String → Option (RedisValue V)} {call : Call V}

theorem Agree.update (h : Agree calls memory redis) {key : String} {value : Option (Value V)}
    {redisValue : Option (RedisValue V)} (hkey : key ≠ "")
    (hplain : (key, KeyUse.plain) ∈ uses calls → redisValue = value.map .text)
    (hhash : (key, KeyUse.hash) ∈ uses calls → SameHash value redisValue) :
    Agree calls (Function.update memory key value) (Function.update redis key redisValue) where
  plain := by
    intro key' huse
    by_cases hkey' : key' = key
    · subst hkey'
      simpa using hplain huse
    · simpa [Function.update_of_ne hkey'] using h.plain key' huse
  hash := by
    intro key' huse
    by_cases hkey' : key' = key
    · subst hkey'
      simpa using hhash huse
    · simpa [Function.update_of_ne hkey'] using h.hash key' huse
  empty := by rw [Function.update_of_ne hkey.symm, h.empty]

/-- Redis has the fields of the object, none where there is no object. -/
theorem SameHash.hgetall {key : String} (h : SameHash (memory key) (redis key)) :
    ∃ fields, Redis.hgetall redis key = .ok fields ∧
      redis key = (if fields = ∅ then none else some (.hash fields)) ∧
      (memory key = none ∧ fields = ∅ ∨ memory key = some (.hash fields)) := by
  rcases h with ⟨hmemory, hredis⟩ | ⟨fields, hmemory, hredis⟩
  · exact ⟨∅, by simp [Redis.hgetall, hredis], hredis, Or.inl ⟨hmemory, rfl⟩⟩
  · refine ⟨fields, ?_, hredis, Or.inr hmemory⟩
    by_cases hfields : fields = ∅ <;> simp [Redis.hgetall, hredis, hfields]

theorem Agree.memory_get (h : Agree calls memory redis) (key : String) :
    (Cache.memory memory).get key none = .ok (memory key) := by
  by_cases hkey : key = ""
  · rw [Cache.get, if_pos hkey, hkey, h.empty]
  · rw [Cache.get, if_neg hkey, Cache.storeGet, Except.map, Option.or_none]

/-- The next states of two caches and what a call gives, under the condition for the same. -/
structure Performs (lang : Language V) (calls : List (Call V)) (call : Call V)
    (memory : String → Option (Value V)) (redis : String → Option (RedisValue V)) : Prop where
  agree : ∃ memory' redis', call.next lang (.memory memory) = .memory memory' ∧
    call.next lang (.redis redis) = .redis redis' ∧ Agree calls memory' redis'
  same : (call.perform lang (.memory memory)).2 = (call.perform lang (.redis redis)).2 ↔
    call.GivesTheSame lang (.memory memory)

theorem Agree.performs_set (h : Agree calls memory redis) (hsep : SeparateKeys calls)
    {key : String} {value : Value V} (hcall : .set key value ∈ calls) :
    Performs lang calls (.set key value) memory redis where
  agree := by
    simp only [Call.next, Call.perform, Cache.set]
    by_cases hnothing : key = "" ∨ lang.falsy value
    · simpa only [if_pos hnothing] using ⟨memory, redis, rfl, rfl, h⟩
    · simp only [if_neg hnothing]
      refine ⟨_, _, rfl, rfl, h.update (fun hkey => hnothing (Or.inl hkey)) (fun _ => rfl) ?_⟩
      exact fun hhash => absurd hhash (hsep.not_hash (mem_uses hcall rfl))
  same := iff_of_true rfl trivial

theorem Agree.performs_get (h : Agree calls memory redis) {key : String}
    {fallbackValue : Option (Value V)} (hcall : .get key fallbackValue ∈ calls) :
    Performs lang calls (.get key fallbackValue) memory redis where
  agree := ⟨memory, redis, rfl, rfl, h⟩
  same := by
    refine iff_of_true ?_ trivial
    have hplain := h.plain key (mem_uses hcall rfl)
    cases hmemory : memory key <;>
      simp [Call.perform, Cache.get, Cache.storeGet, Redis.get, hplain, hmemory]

theorem Agree.performs_delete (h : Agree calls memory redis) {key : String} :
    Performs lang calls (.delete key) memory redis where
  agree := by
    simp only [Call.next, Call.perform, Cache.delete]
    by_cases hkey : key = ""
    · simpa only [if_pos hkey] using ⟨memory, redis, rfl, rfl, h⟩
    · simp only [if_neg hkey]
      exact ⟨_, _, rfl, rfl, h.update hkey (fun _ => rfl) fun _ => Or.inl ⟨rfl, rfl⟩⟩
  same := iff_of_true rfl trivial

theorem Agree.performs_getHash (h : Agree calls memory redis) {key : String}
    {fallbackValue : Option (Value V)} (hcall : .getHash key fallbackValue ∈ calls) :
    Performs lang calls (.getHash key fallbackValue) memory redis where
  agree := ⟨memory, redis, rfl, rfl, h⟩
  same := by
    obtain ⟨fields, hredis, -, hmemory⟩ := (h.hash key (mem_uses hcall rfl)).hgetall
    simp only [Call.perform, Cache.getHash, h.memory_get, hredis, Except.map, Except.ok.injEq,
      Outcome.ofValue_inj, Option.some_or, Call.GivesTheSame]
    rcases hmemory with ⟨hmemory, rfl⟩ | hmemory <;> simp [hmemory]

theorem Agree.performs_getHashValue (h : Agree calls memory redis) {cacheKey hashKey : String}
    {fallbackValue : Option V} (hcall : .getHashValue cacheKey hashKey fallbackValue ∈ calls) :
    Performs lang calls (.getHashValue cacheKey hashKey fallbackValue) memory redis where
  agree := ⟨memory, redis, rfl, rfl, h⟩
  same := by
    obtain ⟨fields, hredis, -, hmemory⟩ := (h.hash cacheKey (mem_uses hcall rfl)).hgetall
    simp only [Call.perform, Cache.getHashValue, Redis.hget, hredis, Except.map, Except.ok.injEq,
      Call.GivesTheSame]
    rcases hmemory with ⟨hmemory, rfl⟩ | hmemory
    · simp [hmemory]
    · simp only [hmemory, Option.bind_some, Option.some.injEq, Value.hash.injEq, forall_eq',
        Language.property]
      cases hlookup : fields.lookup hashKey with
      | some value =>
        have hmem : hashKey ∈ fields := Finmap.mem_of_lookup_eq_some hlookup
        simp [hmem, Outcome.ofField]
      | none =>
        have hmem : hashKey ∉ fields := Finmap.lookup_eq_none.mp hlookup
        cases hinherits : lang.inherits hashKey <;>
          simp [hmem, Outcome.ofField_ne_inherited.symm]

theorem Agree.performs_setHash (h : Agree calls memory redis) (hsep : SeparateKeys calls)
    {key : String} {hash : Fields V} (hcall : .setHash key hash ∈ calls)
    (hproto : "__proto__" ∉ hash) :
    Performs lang calls (.setHash key hash) memory redis := by
  by_cases hkey : key = ""
  · refine ⟨⟨memory, redis, ?_, ?_, h⟩, iff_of_true ?_ ⟨hproto, fun _ => hkey⟩⟩ <;>
      simp [Call.next, Call.perform, Cache.setHash, hkey, Call.settle]
  by_cases hnull : hash.any fun _ value => lang.isNull value
  · have hne : hash ≠ ∅ := by
      rintro rfl
      cases hnull
    refine ⟨⟨memory, redis, ?_, ?_, h⟩, iff_of_true ?_ ⟨hproto, fun hempty => absurd hempty hne⟩⟩ <;>
      simp [Call.next, Call.perform, Cache.setHash, hkey, hnull, Call.settle]
  have huse : (key, KeyUse.hash) ∈ uses calls := mem_uses hcall rfl
  have hplain : (key, KeyUse.plain) ∉ uses calls := fun hplain => hsep.not_hash hplain huse
  obtain ⟨fields, hredis, hentry, hmemory⟩ := (h.hash key huse).hgetall
  have hfields : (memory key).getD (.hash ∅) = .hash fields := by
    rcases hmemory with ⟨hmemory, rfl⟩ | hmemory <;> simp [hmemory]
  have hmemory' : (Cache.memory memory).setHash lang key hash =
      .ok (.memory (Function.update memory key (some (.hash (hash ∪ fields))))) := by
    simp [Cache.setHash, hkey, hnull, h.memory_get, Except.map, hfields, Language.assign, hproto,
      Cache.set, Language.falsy, Cache.storeSet]
  have hredis' : (Cache.redis redis).setHash lang key hash =
      (Redis.hset redis key hash).map .redis := by
    rw [Cache.setHash, if_neg hkey, if_neg hnull]
  by_cases hempty : hash = ∅
  · -- Redis takes no hash without fields, and the memory cache stores an object without any.
    rw [Redis.hset, if_pos hempty] at hredis'
    constructor
    · refine ⟨_, redis, by rw [Call.next, Call.perform, hmemory']; rfl,
        by rw [Call.next, Call.perform, hredis']; rfl, ?_⟩
      rw [← Function.update_eq_self key redis]
      refine h.update hkey (fun hplain' => absurd hplain' hplain) fun _ => Or.inr ⟨fields, ?_, hentry⟩
      rw [hempty, Finmap.empty_union]
    · rw [Call.perform, Call.perform, hmemory', hredis']
      exact iff_of_false nofun fun hsame => hkey (hsame.2 hempty)
  · have hne : hash ∪ fields ≠ ∅ := fun hunion => hempty (union_eq_empty hunion)
    rw [Redis.hset, if_neg hempty, hredis] at hredis'
    constructor
    · refine ⟨_, _, by rw [Call.next, Call.perform, hmemory']; rfl,
        by rw [Call.next, Call.perform, hredis']; rfl, ?_⟩
      refine h.update hkey (fun hplain' => absurd hplain' hplain) fun _ => Or.inr ⟨_, rfl, ?_⟩
      rw [if_neg hne]
    · rw [Call.perform, Call.perform, hmemory', hredis']
      exact iff_of_true rfl ⟨hproto, fun hempty' => absurd hempty' hempty⟩

theorem Agree.performs_deleteFromHash (h : Agree calls memory redis) (hsep : SeparateKeys calls)
    {cacheKey hashKey : String} (hcall : .deleteFromHash cacheKey hashKey ∈ calls) :
    Performs lang calls (.deleteFromHash cacheKey hashKey) memory redis := by
  by_cases hkeys : cacheKey = "" ∨ hashKey = ""
  · refine ⟨⟨memory, redis, ?_, ?_, h⟩, iff_of_true ?_ trivial⟩ <;>
      simp only [Call.next, Call.perform, Cache.deleteFromHash, if_pos hkeys, Call.settle]
  have hkey : cacheKey ≠ "" := fun hkey => hkeys (Or.inl hkey)
  have huse : (cacheKey, KeyUse.hash) ∈ uses calls := mem_uses hcall rfl
  have hplain : (cacheKey, KeyUse.plain) ∉ uses calls := fun hplain => hsep.not_hash hplain huse
  obtain ⟨fields, hredis, hentry, hmemory⟩ := (h.hash cacheKey huse).hgetall
  have hredis' : (Cache.redis redis).deleteFromHash lang cacheKey hashKey =
      .ok (.redis (Function.update redis cacheKey
        (if fields.erase hashKey = ∅ then none else some (.hash (fields.erase hashKey))))) := by
    rw [Cache.deleteFromHash, if_neg hkeys]
    simp [Redis.hdel, hredis, Except.map]
  have hmemory' : (Cache.memory memory).deleteFromHash lang cacheKey hashKey =
      .ok (.memory (Function.update memory cacheKey ((memory cacheKey).map (·.without hashKey)))) := by
    rw [Cache.deleteFromHash, if_neg hkeys]
    rcases hmemory with ⟨hmemory, -⟩ | hmemory
    · have hself := Function.update_eq_self cacheKey memory
      rw [hmemory] at hself
      simp [h.memory_get, Except.map, hmemory, hself]
    · simp [h.memory_get, Except.map, hmemory, Language.falsy, Cache.storeSet]
  constructor
  · refine ⟨_, _, by rw [Call.next, Call.perform, hmemory']; rfl,
      by rw [Call.next, Call.perform, hredis']; rfl, ?_⟩
    refine h.update hkey (fun hplain' => absurd hplain' hplain) fun _ => ?_
    rcases hmemory with ⟨hmemory, rfl⟩ | hmemory
    · exact Or.inl ⟨by rw [hmemory]; rfl, if_pos rfl⟩
    · exact Or.inr ⟨fields.erase hashKey, by rw [hmemory]; rfl, rfl⟩
  · rw [Call.perform, Call.perform, hmemory', hredis']
    exact iff_of_true rfl trivial

theorem Agree.performs (h : Agree calls memory redis) (hsep : SeparateKeys calls)
    (hcall : call ∈ calls) (hproto : ¬ call.NamesProto) : Performs lang calls call memory redis := by
  cases call with
  | set => exact h.performs_set hsep hcall
  | get => exact h.performs_get hcall
  | delete => exact h.performs_delete
  | setHash => exact h.performs_setHash hsep hcall hproto
  | getHash => exact h.performs_getHash hcall
  | getHashValue => exact h.performs_getHashValue hcall
  | deleteFromHash => exact h.performs_deleteFromHash hsep hcall

theorem Agree.answers_eq (h : Agree calls memory redis) (hsep : SeparateKeys calls)
    {rest : List (Call V)} (hrest : ∀ call ∈ rest, call ∈ calls) :
    (EveryStep (Call.GivesTheSame lang) (.memory memory)
        (trace (fun cache call => call.next lang cache) (.memory memory) rest) →
      answers lang (.memory memory) rest = answers lang (.redis redis) rest) ∧
    ((∀ call ∈ rest, ¬ call.NamesProto) →
      answers lang (.memory memory) rest = answers lang (.redis redis) rest →
      EveryStep (Call.GivesTheSame lang) (.memory memory)
        (trace (fun cache call => call.next lang cache) (.memory memory) rest)) := by
  induction rest generalizing memory redis with
  | nil => exact ⟨fun _ => rfl, fun _ _ => trivial⟩
  | cons call rest ih =>
    have hcall := hrest call List.mem_cons_self
    have hrest' : ∀ call ∈ rest, call ∈ calls :=
      fun call' hcall' => hrest call' (List.mem_cons_of_mem call hcall')
    simp only [trace, everyStep_cons, answers, List.cons.injEq]
    constructor
    · rintro ⟨hsame, htail⟩
      have hperforms : Performs lang calls call memory redis :=
        h.performs hsep hcall (not_namesProto hsame)
      obtain ⟨memory', redis', hmemory, hredis, hagree⟩ := hperforms.agree
      rw [hmemory] at htail
      rw [hmemory, hredis]
      exact ⟨hperforms.same.mpr hsame, (ih hagree hrest').1 htail⟩
    · rintro hproto ⟨hhead, htail⟩
      have hperforms : Performs lang calls call memory redis :=
        h.performs hsep hcall (hproto call List.mem_cons_self)
      obtain ⟨memory', redis', hmemory, hredis, hagree⟩ := hperforms.agree
      rw [hmemory, hredis] at htail
      rw [hmemory]
      refine ⟨hperforms.same.mp hhead, (ih hagree hrest').2 (fun call' hcall' => ?_) htail⟩
      exact hproto call' (List.mem_cons_of_mem call hcall')

/-- The two caches give the same when each call finds the memory cache as it needs it, and only
then where no field is named `__proto__`. -/
theorem answers_same_of_givesTheSame (hsep : SeparateKeys calls) :
    (EveryStep (Call.GivesTheSame lang) (.memory fun _ => none)
        (trace (fun cache call => call.next lang cache) (.memory fun _ => none) calls) →
      answers lang (.memory fun _ => none) calls = answers lang (.redis fun _ => none) calls) ∧
    ((∀ call ∈ calls, ¬ call.NamesProto) →
      answers lang (.memory fun _ => none) calls = answers lang (.redis fun _ => none) calls →
      EveryStep (Call.GivesTheSame lang) (.memory fun _ => none)
        (trace (fun cache call => call.next lang cache) (.memory fun _ => none) calls)) :=
  Agree.answers_eq ⟨fun _ _ => rfl, fun _ _ => Or.inl ⟨rfl, rfl⟩, rfl⟩ hsep fun _ h => h

end

section Example

/-- Texts as values. -/
def textLanguage : Language String where
  isFalsy := fun value => value = ""
  isNull := fun _ => false
  inherits := fun name => name = "constructor" || name = "toString" || name = "__proto__"
  propertyOf := fun _ _ => none
  assignProto := fun fields _ => fields

theorem foundHash_answers_same :
    answers textLanguage (.memory fun _ => none)
        [.setHash "key" (Finmap.singleton "field" "value"), .getHashValue "key" "field" none,
          .getHash "other" (some (.hash ∅))] =
      answers textLanguage (.redis fun _ => none)
        [.setHash "key" (Finmap.singleton "field" "value"), .getHashValue "key" "field" none,
          .getHash "other" (some (.hash ∅))] := by
  refine (answers_same_of_givesTheSame (by decide)).1 ⟨⟨by decide, ?_⟩, ?_, fun _ => rfl, trivial⟩
  · exact fun h => absurd h (by decide)
  · rintro fields hfields
    obtain rfl := Value.hash.inj (Option.some.inj hfields)
    exact Or.inl (by decide)

/-- Redis has an empty map where the memory cache has nothing, so that only one falls back. -/
theorem missingHash_not_answers_same :
    SeparateKeys [Call.getHash "key" (some (.hash (Finmap.singleton "field" "value")))] ∧
    answers textLanguage (.memory fun _ => none)
        [.getHash "key" (some (.hash (Finmap.singleton "field" "value")))] ≠
      answers textLanguage (.redis fun _ => none)
        [.getHash "key" (some (.hash (Finmap.singleton "field" "value")))] := by
  refine ⟨by decide, fun h => ?_⟩
  have hvalue := Value.hash.inj (Outcome.value.inj (Except.ok.inj (List.cons.inj h).1))
  exact absurd hvalue (by decide)

end Example
end N8n.Caching
