import Mathlib.Data.List.Basic

/-! The `from_url` class methods of the three client classes. `urlparse` is the
library's: its scheme, host name, port and query are the input. `int()` is a
parameter, `none` where it raises `ValueError`. What `from_url` computes is the
arguments it passes to the class's constructor, and what the constructor
stores of them. -/
namespace Tasq.Url

/-- What `urlparse(url)` gives `from_url`. -/
structure ParsedUrl where
  scheme : String
  hostname : Option String
  port : Option Nat
  query : String
  deriving DecidableEq, Repr

/-- An exception `from_url` raises. -/
inductive UrlError where
  /-- `AssertionError(f"Unsupported {scheme}")` -/
  | assertion (message : String)
  /-- `t.split('=')[1]` on a query item without `=` -/
  | indexError
  /-- `int()` of a value that is not an integer -/
  | valueError (value : String)
  deriving DecidableEq, Repr

/-- `s.split(sep)` for a one-character `sep`: the pieces between separators,
empty ones included. -/
def split (sep : Char) : List Char → List (List Char)
  | [] => [[]]
  | c :: rest =>
    if c = sep then [] :: split sep rest
    else match split sep rest with
      | piece :: pieces => (c :: piece) :: pieces
      | [] => [[c]]

/-- `s or default` on strings. -/
def orString (s default : String) : String := if s = "" then default else s

/-- `u.hostname or default` -/
def orHost (hostname : Option String) (default : String) : String := orString (hostname.getD "") default

/-- `u.port or default` -/
def orPort (port : Option Nat) (default : Nat) : Nat := if port.getD 0 = 0 then default else port.getD 0

/-- `d[k] = v` on a `dict` kept as its items in insertion order: the value of
a present key is replaced in place, a new key goes last. -/
def dictSet : List (String × String) → String → String → List (String × String)
  | [], k, v => [(k,v)]
  | p :: d, k, v => if p.1 = k then (k,v) :: d else p :: dictSet d k v

/-- `d.get(k)` -/
def dictGet (d : List (String × String)) (k : String) : Option String := (d.find? (·.1 = k)).map (·.2)

/-- The non-empty items of `u.query.split('?')`. -/
def items (query : String) : List (List Char) := (split '?' query.data).filter (· ≠ [])

/-- One item of the comprehension: `d[t.split('=')[0]] = t.split('=')[1]`. -/
def extrasItem (d : List (String × String)) (t : List Char) : Except UrlError (List (String × String)) :=
  match split '=' t with
  | k :: v :: _ => pure (dictSet d ⟨k⟩ ⟨v⟩)
  | _ => throw .indexError

/-- `{t.split('=')[0]: t.split('=')[1] for t in u.query.split('?') if t}` -/
def queryExtras (query : String) : Except UrlError (List (String × String)) := (items query).foldlM extrasItem []

/-- What the three `from_url`s share: `scheme = u.scheme or defaultScheme`, the
`assert`, and the two `extras` comprehensions; `build` makes the class's
`conn_args` from the scheme and `extras.get` and calls the constructor. -/
def fromUrlWith {α : Type} (defaultScheme : String) (schemes extraparams : List String)
    (build : String → (String → Option String) → Except UrlError α) (u : ParsedUrl) : Except UrlError α := do
  let scheme := orString u.scheme defaultScheme
  if scheme ∉ schemes then throw (.assertion ("Unsupported " ++ scheme))
  let extras ← queryExtras u.query
  build scheme (dictGet (extras.filter fun p => p.1 ∈ extraparams))

/-- `int(extras.get(key, 0))` -/
def intArg (int : String → Option Int) (value : Option String) : Except UrlError Int :=
  match value with
  | none => pure 0
  | some s => match int s with
    | some n => pure n
    | none => throw (.valueError s)

/-- What `ZMQTasqClient.__init__` stores. -/
structure ZMQTasqClient where
  host : String
  port : Nat
  plport : Int
  signkey : Option String
  unixSocket : Bool
  deriving DecidableEq, Repr

/-- `ZMQTasqClient.__init__`: `self._plport = plport or port + 1`. -/
def ZMQTasqClient.init (host : String) (port : Nat) (plport : Int) (signkey : Option String)
    (unixSocket : Bool) : ZMQTasqClient :=
  ⟨host,port,if plport = 0 then port + 1 else plport,signkey,unixSocket⟩

/-- `conn_args` of `ZMQTasqClient.from_url` and `cls(**conn_args)`. -/
def ZMQTasqClient.connArgs (int : String → Option Int) (u : ParsedUrl) (signkey : Option String) (scheme : String)
    (get : String → Option String) : Except UrlError ZMQTasqClient := do
  let plport ← intArg int (get "plport")
  pure (ZMQTasqClient.init (orHost u.hostname "127.0.0.1") (orPort u.port 9000) plport signkey (scheme = "unix"))

def ZMQTasqClient.fromUrl (int : String → Option Int) (u : ParsedUrl) (signkey : Option String) :
    Except UrlError ZMQTasqClient :=
  fromUrlWith "zmq" ["zmq","unix","tcp"] ["plport"] (ZMQTasqClient.connArgs int u signkey) u

/-- What `RedisTasqClient.__init__` stores. -/
structure RedisTasqClient where
  host : String
  port : Nat
  db : Int
  name : String
  signkey : Option String
  deriving DecidableEq, Repr

/-- `conn_args` of `RedisTasqClient.from_url` and `cls(**conn_args)`. -/
def RedisTasqClient.connArgs (int : String → Option Int) (u : ParsedUrl) (signkey : Option String) (_ : String)
    (get : String → Option String) : Except UrlError RedisTasqClient := do
  let db ← intArg int (get "db")
  pure ⟨orHost u.hostname "localhost",orPort u.port 6379,db,(get "name").getD "redis-queue",signkey⟩

def RedisTasqClient.fromUrl (int : String → Option Int) (u : ParsedUrl) (signkey : Option String) :
    Except UrlError RedisTasqClient :=
  fromUrlWith "redis" ["redis"] ["db","name"] (RedisTasqClient.connArgs int u signkey) u

/-- What `RabbitMQTasqClient.__init__` stores. -/
structure RabbitMQTasqClient where
  host : String
  port : Nat
  name : String
  signkey : Option String
  deriving DecidableEq, Repr

/-- `conn_args` of `RabbitMQTasqClient.from_url` and `cls(**conn_args)`. -/
def RabbitMQTasqClient.connArgs (u : ParsedUrl) (signkey : Option String) (_ : String)
    (get : String → Option String) : Except UrlError RabbitMQTasqClient :=
  pure ⟨orHost u.hostname "localhost",orPort u.port 5672,(get "name").getD "amqp-queue",signkey⟩

def RabbitMQTasqClient.fromUrl (u : ParsedUrl) (signkey : Option String) : Except UrlError RabbitMQTasqClient :=
  fromUrlWith "amqp" ["amqp"] ["name"] (RabbitMQTasqClient.connArgs u signkey) u

end Tasq.Url

namespace Tasq.Url

/- The query as the comprehension reads it, stated without the `dict`: the
non-empty `?`-items, each `key=value` up to any next `=`, a later item for a key
overriding an earlier one. -/

/-- An item's `key=value`, the value up to any next `=`. -/
def itemPair (t : List Char) : Option (String × String) :=
  match split '=' t with
  | k :: v :: _ => some (⟨k⟩,⟨v⟩)
  | _ => none

/-- The `key=value` pairs of the items that have an `=`, in query order. -/
def queryPairs (query : String) : List (String × String) := (items query).filterMap itemPair

/-- Every item has an `=`. -/
def WellFormed (query : String) : Prop := ∀ t ∈ items query, 2 ≤ (split '=' t).length

instance : DecidablePred WellFormed := fun query => inferInstanceAs (Decidable (∀ t ∈ items query, _))

/-- The value of the last item for `key`. -/
def lastValue (query key : String) : Option String :=
  ((queryPairs query).reverse.find? (·.1 = key)).map (·.2)

theorem dictGetSet (d : List (String × String)) (k v k' : String) :
    dictGet (dictSet d k v) k' = if k' = k then some v else dictGet d k' := by
  induction d with
  | nil => by_cases same : k' = k <;> simp [dictSet,dictGet,same,eq_comm]
  | cons p d ih =>
    by_cases first : p.1 = k
    · by_cases same : k' = k <;> simp [dictSet,dictGet,first,same,eq_comm]
    · by_cases here : p.1 = k'
      · have other : k' ≠ k := fun h => first (here.trans h)
        simp [dictSet,dictGet,first,here,other]
      · simpa [dictSet,dictGet,first,here] using ih

theorem extrasItemPair (d : List (String × String)) (t : List Char) :
    extrasItem d t = match itemPair t with
      | some p => .ok (dictSet d p.1 p.2)
      | none => .error .indexError := by
  unfold extrasItem itemPair
  split <;> rfl

theorem itemPairNone (t : List Char) : itemPair t = none ↔ ¬ 2 ≤ (split '=' t).length := by
  unfold itemPair
  rcases split '=' t with _ | ⟨k,_ | ⟨v,rest⟩⟩ <;> simp

/-- The comprehension's loop raises exactly when an item has no `=`, and
otherwise sets the items' pairs in order. -/
theorem foldExtras (ts : List (List Char)) (d : List (String × String)) :
    ts.foldlM extrasItem d = if ∀ t ∈ ts, 2 ≤ (split '=' t).length
      then .ok ((ts.filterMap itemPair).foldl (fun d p => dictSet d p.1 p.2) d) else .error .indexError := by
  induction ts generalizing d with
  | nil => rfl
  | cons t ts ih =>
    rw [List.foldlM_cons,extrasItemPair]
    cases pair : itemPair t with
    | none =>
      have short := (itemPairNone t).mp pair
      simp [short]
      rfl
    | some p =>
      have long : 2 ≤ (split '=' t).length := by
        by_contra short
        rw [← itemPairNone] at short
        simp [short] at pair
      simp only [List.filterMap_cons,pair,List.foldl_cons,List.mem_cons,forall_eq_or_imp,long,true_and]
      exact ih _

/-- Looking a key up after setting pairs in order gives the last pair's value. -/
theorem dictGetFold (ps : List (String × String)) (d : List (String × String)) (k : String) :
    dictGet (ps.foldl (fun d p => dictSet d p.1 p.2) d) k = ((ps.reverse.find? (·.1 = k)).map (·.2)).or (dictGet d k) := by
  induction ps generalizing d with
  | nil => simp
  | cons p ps ih =>
    rw [List.foldl_cons,ih,dictGetSet,List.reverse_cons,List.find?_append]
    cases ps.reverse.find? (·.1 = k) with
    | some q => rfl
    | none => by_cases same : k = p.1 <;> simp [same,eq_comm]

/-- The `extras` comprehension of every `from_url`: it succeeds exactly on a
well-formed query, raises nothing but `IndexError`, and gives each key the
value of the last item for it. -/
theorem queryExtrasReads (query : String) :
    ((∃ d, queryExtras query = .ok d) ↔ WellFormed query) ∧
    (∀ e, queryExtras query = .error e → e = .indexError) ∧
    (∀ d, queryExtras query = .ok d → ∀ k, dictGet d k = lastValue query k) := by
  have folded := foldExtras (items query) []
  rw [← queryExtras] at folded
  by_cases wellFormed : ∀ t ∈ items query, 2 ≤ (split '=' t).length
  · rw [if_pos wellFormed] at folded
    refine ⟨⟨fun _ => wellFormed,fun _ => ⟨_,folded⟩⟩,fun e h => (by rw [folded] at h; cases h),fun d h k => ?_⟩
    rw [folded] at h
    cases h
    rw [dictGetFold]
    simp [lastValue,queryPairs,dictGet]
  · rw [if_neg wellFormed] at folded
    refine ⟨⟨fun ⟨d,h⟩ => (by rw [folded] at h; cases h),fun h => absurd h wellFormed⟩,
      fun e h => (by rw [folded] at h; cases h; rfl),fun d h => (by rw [folded] at h; cases h)⟩

theorem dictGetFilter (d : List (String × String)) (params : List String) (k : String) :
    dictGet (d.filter fun p => p.1 ∈ params) k = if k ∈ params then dictGet d k else none := by
  induction d with
  | nil => simp [dictGet]
  | cons p d ih =>
    by_cases kept : p.1 ∈ params
    · by_cases same : p.1 = k
      · subst same; simp [dictGet,kept]
      · simpa [dictGet,kept,same] using ih
    · by_cases same : p.1 = k
      · subst same; simpa [dictGet,kept] using ih
      · simpa [dictGet,kept,same] using ih

/-- What every `from_url` does before building its arguments: the scheme check,
then the query check, then the build, where each of the class's own keys has
the value of the last item for it and every other key is absent. -/
theorem fromUrlWithEq {α : Type} (defaultScheme : String) (schemes extraparams : List String)
    (build : String → (String → Option String) → Except UrlError α) (u : ParsedUrl) :
    fromUrlWith defaultScheme schemes extraparams build u =
      if orString u.scheme defaultScheme ∉ schemes then
        .error (.assertion ("Unsupported " ++ orString u.scheme defaultScheme))
      else if ¬ WellFormed u.query then .error .indexError
      else build (orString u.scheme defaultScheme) fun k => if k ∈ extraparams then lastValue u.query k else none := by
  obtain ⟨accepts,onlyIndex,reads⟩ := queryExtrasReads u.query
  by_cases allowed : orString u.scheme defaultScheme ∈ schemes
  · cases parsed : queryExtras u.query with
    | error e =>
      cases onlyIndex e parsed
      have malformed : ¬ WellFormed u.query := fun wellFormed => by
        obtain ⟨d,ok⟩ := accepts.mpr wellFormed
        rw [parsed] at ok; cases ok
      simp [fromUrlWith,allowed,parsed,malformed]; rfl
    | ok d =>
      have wellFormed := accepts.mp ⟨d,parsed⟩
      have get : dictGet (d.filter fun p => p.1 ∈ extraparams) =
          fun k => if k ∈ extraparams then lastValue u.query k else none := by
        funext k; rw [dictGetFilter,reads d parsed]
      simp only [fromUrlWith,allowed,not_true_eq_false,if_false,parsed,wellFormed,not_true_eq_false]
      exact congrArg (build (orString u.scheme defaultScheme)) get
  · simp [fromUrlWith,allowed]; rfl

end Tasq.Url
