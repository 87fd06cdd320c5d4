import Secbuf.FastProgress

/-! The lock-free pool when no two calls overlap. Every call is then one step on what lies at rest
between the calls: the idle buffers of each pool in their order, the caches and the handles. -/

namespace Secbuf.FastSequential
open Calls Storage BufferCore BufferScript Custody FastPool
open CountedQueue (usizePred)
open FastProgress (actor)

/-- A pool between calls. Its queue needs no counter beside it. -/
structure Shelf where
  idle : List Item
  config : PoolConfig
  stats : FastPoolStatsInner
  words : config.maxPoolSize < 2 ^ 64 ∧ config.minPoolSize < 2 ^ 64
  few : idle.length ≤ max config.maxPoolSize config.minPoolSize

namespace Shelf

def pool (shelf : Shelf) : FastBufferPool where
  globalPool := ⟨shelf.idle, shelf.idle.length⟩
  config := shelf.config
  stats := shelf.stats

def new (config : PoolConfig) (serial : Nat) : Option Shelf :=
  match made : freshItems config.bufferSize config.minPoolSize serial with
  | .ok items =>
    if words : config.maxPoolSize < 2 ^ 64 ∧ config.minPoolSize < 2 ^ 64 then
      some ⟨items, config, ⟨0, 0, 0, 0⟩, words,
        (freshItems_length made).le.trans (le_max_right _ _)⟩
    else none
  | .error _ => none

def room (shelf : Shelf) : Nat := shelf.config.maxPoolSize - shelf.idle.length

def lacks (shelf : Shelf) (targetSize : Nat) : Nat :=
  min targetSize shelf.config.maxPoolSize - shelf.idle.length

theorem lacks_le (shelf : Shelf) (targetSize : Nat) : shelf.lacks targetSize ≤ shelf.room :=
  Nat.sub_le_sub_right (min_le_right _ _) _

def counted (shelf : Shelf) (count : FastBufferPool → FastBufferPool) : Shelf :=
  { shelf with stats := (count shelf.pool).stats }

def behind (shelf : Shelf) : Shelf :=
  { shelf with
    idle := shelf.idle.tail
    few := List.length_tail.le.trans ((Nat.sub_le _ 1).trans shelf.few) }

def emptied (shelf : Shelf) : Shelf := { shelf with idle := [], few := Nat.zero_le _ }

def stock (shelf : Shelf) (items : List Item) (fits : items.length ≤ shelf.room) : Shelf :=
  { shelf with
    idle := shelf.idle ++ items
    few := by
      have few := shelf.few
      unfold room at fits
      rw [List.length_append]
      omega }

end Shelf

/-- The pools when no thread is inside a call. -/
structure Rest (ι θ : Type) where
  shelves : ι → Option Shelf
  caches : θ → List Item
  tornDown : θ → Bool
  held : List (FastHandle ι)
  leaked : List Item
  destroyed : List Item
  created : Nat

def burned (item : Item) : Item := { item with buffer := item.buffer.burn }

namespace Rest
variable {ι θ : Type}

def empty : Rest ι θ where
  shelves _ := none
  caches _ := []
  tornDown _ := false
  held := []
  leaked := []
  destroyed := []
  created := 0

def world (a : Rest ι θ) : World ι θ where
  pools p := (a.shelves p).map Shelf.pool
  caches := a.caches
  threads _ := .idle
  tornDown := a.tornDown
  held := a.held
  leaked := a.leaked
  destroyed := a.destroyed
  created := a.created

def setShelf [DecidableEq ι] (a : Rest ι θ) (p : ι) (shelf : Shelf) : Rest ι θ :=
  { a with shelves := Function.update a.shelves p (some shelf) }

def setCache [DecidableEq θ] (a : Rest ι θ) (t : θ) (cache : List Item) : Rest ι θ :=
  { a with caches := Function.update a.caches t cache }

def destroy (a : Rest ι θ) (items : List Item) : Rest ι θ :=
  { a with destroyed := items ++ a.destroyed }

def hand (a : Rest ι θ) (p : ι) (item : Item) : Rest ι θ := { a with held := ⟨p, item⟩ :: a.held }

def make (a : Rest ι θ) (count : Nat) : Rest ι θ := { a with created := a.created + count }

variable [DecidableEq ι] [DecidableEq θ]

/-- The newest buffer of the thread's cache, the oldest of the pool, or a new one. -/
def acquire (a : Rest ι θ) (t : θ) (p : ι) (shelf : Shelf) : Option (Rest ι θ) :=
  match (a.caches t).getLast? with
  | some item =>
    some (((a.setShelf p (shelf.counted .countHit)).setCache t (a.caches t).dropLast).hand p item)
  | none =>
    match shelf.idle with
    | item :: _ => some ((a.setShelf p shelf.behind).hand p item)
    | [] =>
      match Buffer.new shelf.config.bufferSize with
      | .ok buffer =>
        some (((a.setShelf p (shelf.counted .countAllocated)).make 1).hand p ⟨a.created, buffer⟩)
      | .error _ => none

/-- Into the thread's cache, else to the pool, else away. -/
def store (a : Rest ι θ) (t : θ) (p : ι) (shelf : Shelf) (item : Item) : Rest ι θ :=
  if a.tornDown t = false ∧ (a.caches t).length < THREAD_CACHE_CAPACITY then
    a.setCache t (a.caches t ++ [item])
  else if fits : 1 ≤ shelf.room then a.setShelf p (shelf.stock [item] fits)
  else a.destroy [item]

def warm (a : Rest ι θ) (p : ι) (shelf : Shelf) (count : Nat) (fits : count ≤ shelf.room) :
    Option (Rest ι θ) :=
  match made : freshItems shelf.config.bufferSize count a.created with
  | .ok items =>
    some ((a.setShelf p (shelf.stock items ((freshItems_length made).le.trans fits))).make count)
  | .error _ => none

def flush (a : Rest ι θ) (t : θ) (p : ι) (shelf : Shelf) (newest : List Item) : Rest ι θ :=
  ((a.setShelf p (shelf.stock (newest.take shelf.room) (List.length_take_le _ _))).setCache t []).destroy
    ((newest.drop shelf.room).map burned).reverse

def next (a : Rest ι θ) : Action ι θ → Option (Rest ι θ)
  | .new p config =>
    match a.shelves p, Shelf.new config a.created with
    | none, some shelf => some ((a.setShelf p shelf).make config.minPoolSize)
    | _, _ => none
  | .acquire t p =>
    if a.tornDown t = false then do
      let shelf ← a.shelves p
      a.acquire t p (shelf.counted .countAcquired)
    else none
  | .drop t i => do
    let handle ← a.held[i]?
    let shelf ← a.shelves handle.pool
    let shelf := shelf.counted .countReturned
    some ({ a.setShelf handle.pool shelf with held := a.held.eraseIdx i }.store t handle.pool shelf
      (burned handle.item))
  | .dropNow i => do
    let handle ← a.held[i]?
    some ({ a with held := a.held.eraseIdx i }.destroy [burned handle.item])
  | .leak i => do
    let handle ← a.held[i]?
    some { a with held := a.held.eraseIdx i, leaked := handle.item :: a.leaked }
  | .warm _ p targetSize => do
    let shelf ← a.shelves p
    a.warm p shelf (shelf.lacks targetSize) (shelf.lacks_le targetSize)
  | .clear _ p => do
    let shelf ← a.shelves p
    some ((a.setShelf p shelf.emptied).destroy shelf.idle.reverse)
  | .clearThreadCache t p =>
    if a.tornDown t = false then do
      let shelf ← a.shelves p
      some (a.flush t p shelf (a.caches t).reverse)
    else none
  | .advance _ => none
  | .exit t =>
    some ({ a.setCache t [] with tornDown := Function.update a.tornDown t true }.destroy (a.caches t))
  | .use i op => do
    let handle ← a.held[i]?
    let after ← (step op handle.item.buffer).state?
    some { a with held := a.held.set i (handle.withBuffer after) }
  | .replace i b => do
    let handle ← a.held[i]?
    some { a with held := a.held.set i (handle.withBuffer b) }

end Rest

section
variable {ι θ : Type} [DecidableEq ι] [DecidableEq θ]

/-- The thread goes on, and nobody else, until its call is over. -/
inductive Finishes (t : θ) : World ι θ → World ι θ → Prop
  | ended {s : World ι θ} (idle : s.threads t = .idle) : Finishes t s s
  | advance {s m u : World ι θ} (taken : FastPool.advance s t = some m) (later : Finishes t m u) :
      Finishes t s u

def Alone (s : World ι θ) (call : Action ι θ) (u : World ι θ) : Prop :=
  ∃ m, Taken s call m ∧ match actor call with
    | some t => Finishes t m u
    | none => m = u

inductive InTurn : World ι θ → List (Action ι θ) → World ι θ → Prop
  | nil {s : World ι θ} : InTurn s [] s
  | cons {s m u : World ι θ} {call : Action ι θ} {calls : List (Action ι θ)}
      (alone : Alone s call m) (later : InTurn m calls u) : InTurn s (call :: calls) u

/-! The steps of one thread. -/

variable {s m u : World ι θ} {t : θ}

theorem advance_idle (idle : s.threads t = .idle) : FastPool.advance s t = none := by
  simp [FastPool.advance, idle]

theorem finishes_idle (idle : s.threads t = .idle) : Finishes t s u ↔ s = u := by
  constructor
  · intro finishes
    cases finishes with
    | ended => rfl
    | advance taken =>
      rw [advance_idle idle] at taken
      cases taken
  · intro same
    subst same
    exact .ended idle

theorem finishes_advance (taken : FastPool.advance s t = some m) : Finishes t s u ↔ Finishes t m u := by
  constructor
  · intro finishes
    cases finishes with
    | ended idle =>
      rw [advance_idle idle] at taken
      cases taken
    | advance other later =>
      cases taken.symm.trans other
      exact later
  · exact .advance taken

theorem not_finishes (busy : s.threads t ≠ .idle) (stuck : FastPool.advance s t = none) :
    ¬ Finishes t s u := by
  intro finishes
  cases finishes with
  | ended idle => exact busy idle
  | advance taken =>
    rw [stuck] at taken
    cases taken

/-! A thread inside a call, and the rest of the pools. -/

namespace Rest
variable {a : Rest ι θ} {p : ι} {shelf : Shelf}

def inside (a : Rest ι θ) (t : θ) (pc : Pc ι) (p : ι) (pool : FastBufferPool) : World ι θ :=
  (a.world.setPool p pool).setPc t pc

omit [DecidableEq θ] in
theorem setShelf_world : (a.setShelf p shelf).world = a.world.setPool p shelf.pool := by
  have pools : (fun q => (Function.update a.shelves p (some shelf) q).map Shelf.pool) =
      Function.update (fun q => (a.shelves q).map Shelf.pool) p (some shelf.pool) := by
    funext q
    by_cases same : q = p
    · rw [same, Function.update_self, Function.update_self, Option.map_some]
    · rw [Function.update_of_ne same, Function.update_of_ne same]
  simp only [world, setShelf, World.setPool, pools]

omit [DecidableEq θ] in
theorem setPool_world (here : a.shelves p = some shelf) : a.world.setPool p shelf.pool = a.world := by
  have pools : Function.update a.world.pools p (some shelf.pool) = a.world.pools := by
    apply Function.update_eq_self_iff.mpr
    simp [world, here]
  simp only [World.setPool, pools]

theorem inside_idle (shelf : Shelf) : a.inside t .idle p shelf.pool = (a.setShelf p shelf).world := by
  rw [setShelf_world]
  have threads : Function.update (a.world.setPool p shelf.pool).threads t .idle =
      (a.world.setPool p shelf.pool).threads := Function.update_eq_self t _
  simp only [inside, World.setPc, threads]

@[simp] theorem inside_threads {pc : Pc ι} {pool : FastBufferPool} :
    (a.inside t pc p pool).threads t = pc := by simp [inside, World.setPc]

@[simp] theorem inside_pools {pc : Pc ι} {pool : FastBufferPool} :
    (a.inside t pc p pool).pools p = some pool := by simp [inside, World.setPc, World.setPool]

@[simp] theorem inside_caches {pc : Pc ι} {pool : FastBufferPool} :
    (a.inside t pc p pool).caches = a.caches := rfl

@[simp] theorem inside_tornDown {pc : Pc ι} {pool : FastBufferPool} :
    (a.inside t pc p pool).tornDown = a.tornDown := rfl

@[simp] theorem inside_created {pc : Pc ι} {pool : FastBufferPool} :
    (a.inside t pc p pool).created = a.created := rfl

@[simp] theorem inside_setPc {pc next : Pc ι} {pool : FastBufferPool} :
    (a.inside t pc p pool).setPc t next = a.inside t next p pool := by
  simp [inside, World.setPc]

@[simp] theorem inside_setPool {pc : Pc ι} {pool after : FastBufferPool} :
    (a.inside t pc p pool).setPool p after = a.inside t pc p after := by
  simp [inside, World.setPc, World.setPool]

@[simp] theorem inside_setCache {pc : Pc ι} {pool : FastBufferPool} {cache : List Item} :
    (a.inside t pc p pool).setCache t cache = (a.setCache t cache).inside t pc p pool := rfl

@[simp] theorem inside_destroy {pc : Pc ι} {pool : FastBufferPool} {items : List Item} :
    (a.inside t pc p pool).destroy items = (a.destroy items).inside t pc p pool := rfl

@[simp] theorem inside_make {pc : Pc ι} {pool : FastBufferPool} :
    { a.inside t pc p pool with created := a.created + 1 } = (a.make 1).inside t pc p pool := rfl

/-! `acquire`. -/

theorem done_finishes {item : Item} :
    Finishes t (a.inside t (.acquireDone p item) p shelf.pool) u ↔
      ((a.setShelf p shelf).hand p item).world = u := by
  have ended : FastPool.advance (a.inside t (.acquireDone p item) p shelf.pool) t =
      some ((a.setShelf p shelf).hand p item).world := by
    simp only [FastPool.advance, inside_threads, inside_setPc, inside_idle]
    rfl
  rw [finishes_advance ended, finishes_idle rfl]

theorem acquire_finishes :
    Finishes t (a.inside t (.acquireCache p) p shelf.pool) u ↔
      ∃ b, a.acquire t p shelf = some b ∧ b.world = u := by
  unfold acquire
  cases top : (a.caches t).getLast? with
  | some item =>
    have hit : FastPool.advance (a.inside t (.acquireCache p) p shelf.pool) t =
        some ((a.setCache t (a.caches t).dropLast).inside t (.acquireDone p item) p
          (shelf.counted .countHit).pool) := by
      simp [FastPool.advance, top]
      rfl
    rw [finishes_advance hit, done_finishes]
    simp
    rfl
  | none =>
    cases idle : shelf.idle with
    | cons item rest =>
      have popped : FastPool.advance (a.inside t (.acquireCache p) p shelf.pool) t =
          some (a.inside t (.acquirePopped p item) p (shelf.pool.dequeue rest)) := by
        simp [FastPool.advance, top, Shelf.pool, idle]
      have uncounted : FastPool.advance
          (a.inside t (.acquirePopped p item) p (shelf.pool.dequeue rest)) t =
          some (a.inside t (.acquireDone p item) p shelf.behind.pool) := by
        simp [FastPool.advance, Shelf.pool, Shelf.behind, idle, FastBufferPool.dequeue,
          FastBufferPool.countDown, CountedQueue.LockFreeQueue.dequeue,
          CountedQueue.LockFreeQueue.countDown, usizePred]
      rw [finishes_advance popped, finishes_advance uncounted, done_finishes]
      simp
    | nil =>
      have missed : FastPool.advance (a.inside t (.acquireCache p) p shelf.pool) t =
          some (a.inside t (.acquireEmpty p) p shelf.pool) := by
        simp [FastPool.advance, top, Shelf.pool, idle]
      rw [finishes_advance missed]
      cases made : Buffer.new shelf.config.bufferSize with
      | error reason =>
        have stuck : FastPool.advance (a.inside t (.acquireEmpty p) p shelf.pool) t = none := by
          simp [FastPool.advance, Shelf.pool, made]
        simpa using not_finishes (by simp) stuck
      | ok buffer =>
        have allocated : FastPool.advance (a.inside t (.acquireEmpty p) p shelf.pool) t =
            some ((a.make 1).inside t (.acquireDone p ⟨a.created, buffer⟩) p
              (shelf.counted .countAllocated).pool) := by
          simp [FastPool.advance, Shelf.pool, made]
          rfl
        rw [finishes_advance allocated, done_finishes]
        simp
        rfl

/-! A push, with its two steps. -/

omit [DecidableEq ι] [DecidableEq θ] in
theorem hasRoom_iff : shelf.pool.hasRoom = true ↔ 1 ≤ shelf.room := by
  have admits : shelf.pool.hasRoom = true ↔ shelf.idle.length < shelf.config.maxPoolSize :=
    decide_eq_true_iff
  rw [admits, Shelf.room]
  omega

omit [DecidableEq ι] [DecidableEq θ] in
theorem pushed {item : Item} (fits : 1 ≤ shelf.room) :
    (shelf.pool.enqueue item).countUp = (shelf.stock [item] fits).pool := by
  have words := shelf.words.1
  have length : usizeAdd shelf.idle.length 1 = shelf.idle.length + 1 := by
    unfold Shelf.room at fits
    apply Nat.mod_eq_of_lt
    omega
  simp [Shelf.pool, Shelf.stock, FastBufferPool.enqueue, FastBufferPool.countUp,
    CountedQueue.LockFreeQueue.enqueue, CountedQueue.LockFreeQueue.countUp, length]

theorem store_finishes {item : Item} :
    Finishes t (a.inside t (.dropStore p item) p shelf.pool) u ↔
      ((a.setShelf p shelf).store t p shelf item).world = u := by
  by_cases space : a.tornDown t = false ∧ (a.caches t).length < THREAD_CACHE_CAPACITY
  · have stored : FastPool.advance (a.inside t (.dropStore p item) p shelf.pool) t =
        some ((a.setShelf p shelf).setCache t (a.caches t ++ [item])).world := by
      simp [FastPool.advance, space, inside_idle]
      rfl
    have stores : (a.setShelf p shelf).store t p shelf item =
        (a.setShelf p shelf).setCache t (a.caches t ++ [item]) := if_pos space
    rw [finishes_advance stored, finishes_idle rfl, stores]
  · by_cases fits : 1 ≤ shelf.room
    · have admitted : FastPool.advance (a.inside t (.dropStore p item) p shelf.pool) t =
          some (a.inside t (.dropPush p item) p shelf.pool) := by
        simp [FastPool.advance, space, hasRoom_iff.mpr fits]
      have queued : FastPool.advance (a.inside t (.dropPush p item) p shelf.pool) t =
          some (a.inside t (.dropCount p) p (shelf.pool.enqueue item)) := by
        simp [FastPool.advance]
      have counted : FastPool.advance (a.inside t (.dropCount p) p (shelf.pool.enqueue item)) t =
          some (a.setShelf p (shelf.stock [item] fits)).world := by
        simp [FastPool.advance, pushed fits, inside_idle]
      have stores : (a.setShelf p shelf).store t p shelf item =
          (a.setShelf p shelf).setShelf p (shelf.stock [item] fits) :=
        (if_neg space).trans (dif_pos fits)
      rw [finishes_advance admitted, finishes_advance queued, finishes_advance counted,
        finishes_idle rfl, stores]
      simp [setShelf]
    · have refused : FastPool.advance (a.inside t (.dropStore p item) p shelf.pool) t =
          some ((a.setShelf p shelf).destroy [item]).world := by
        simp [FastPool.advance, space, mt hasRoom_iff.mp fits, inside_idle]
        rfl
      have stores : (a.setShelf p shelf).store t p shelf item = (a.setShelf p shelf).destroy [item] :=
        (if_neg space).trans (dif_neg fits)
      rw [finishes_advance refused, finishes_idle rfl, stores]

/-! The loops. -/

theorem warm_finishes {count : Nat} (fits : count ≤ shelf.room) :
    Finishes t (a.inside t (.warm p count) p shelf.pool) u ↔
      ∃ items, ∃ few : items.length ≤ shelf.room,
        freshItems shelf.config.bufferSize count a.created = .ok items ∧
        ((a.setShelf p (shelf.stock items few)).make count).world = u := by
  induction count generalizing a shelf with
  | zero =>
    have ended : FastPool.advance (a.inside t (.warm p 0) p shelf.pool) t =
        some (a.setShelf p shelf).world := by
      simp [FastPool.advance, inside_idle]
    rw [finishes_advance ended, finishes_idle rfl]
    simp [freshItems, Shelf.stock, make]
  | succ count ih =>
    cases made : Buffer.new shelf.config.bufferSize with
    | error reason =>
      have stuck : FastPool.advance (a.inside t (.warm p (count + 1)) p shelf.pool) t = none := by
        simp [FastPool.advance, Shelf.pool, made]
      simpa [freshItems, made] using not_finishes (by simp) stuck
    | ok buffer =>
      have first : 1 ≤ shelf.room := (Nat.le_add_left 1 count).trans fits
      have queued : FastPool.advance (a.inside t (.warm p (count + 1)) p shelf.pool) t =
          some ((a.make 1).inside t (.warmCount p count) p
            (shelf.pool.enqueue ⟨a.created, buffer⟩)) := by
        simp [FastPool.advance, Shelf.pool, made]
        rfl
      have counted : FastPool.advance ((a.make 1).inside t (.warmCount p count) p
          (shelf.pool.enqueue ⟨a.created, buffer⟩)) t =
          some ((a.make 1).inside t (.warm p count) p
            (shelf.stock [⟨a.created, buffer⟩] first).pool) := by
        simp [FastPool.advance, pushed first]
      have later : count ≤ (shelf.stock [⟨a.created, buffer⟩] first).room := by
        simp only [Shelf.room, Shelf.stock, List.length_append, List.length_singleton] at fits ⊢
        omega
      rw [finishes_advance queued, finishes_advance counted, ih later]
      constructor
      · rintro ⟨items, few, fresh, rfl⟩
        refine ⟨⟨a.created, buffer⟩ :: items, ?_, ?_, ?_⟩
        · rw [List.length_cons, freshItems_length fresh]
          exact fits
        · have others : freshItems shelf.config.bufferSize count (a.created + 1) = .ok items := fresh
          rw [freshItems, made, others]
        · simp [setShelf, make, Shelf.stock, Nat.add_assoc, Nat.add_comm 1 count]
      · rintro ⟨items, few, fresh, rfl⟩
        obtain ⟨other, rest, same, others, rfl⟩ := freshItems_cases fresh
        cases made.symm.trans same
        refine ⟨rest, ?_, others, ?_⟩
        · rw [freshItems_length others]
          exact later
        · simp [setShelf, make, Shelf.stock, Nat.add_assoc, Nat.add_comm 1 count]

omit [DecidableEq θ] in
theorem warm_eq_some {count : Nat} {fits : count ≤ shelf.room} {b : Rest ι θ} :
    a.warm p shelf count fits = some b ↔ ∃ items, ∃ few : items.length ≤ shelf.room,
      freshItems shelf.config.bufferSize count a.created = .ok items ∧
      (a.setShelf p (shelf.stock items few)).make count = b := by
  unfold warm
  split
  · rename_i items made
    constructor
    · intro same
      exact ⟨items, (freshItems_length made).le.trans fits, made, Option.some.inj same⟩
    · rintro ⟨other, few, fresh, rfl⟩
      cases made.symm.trans fresh
      rfl
  · rename_i reason failed
    simp [failed]

theorem clear_finishes {items : List Item} (idle : shelf.idle = items) :
    Finishes t (a.inside t (.clear p) p shelf.pool) u ↔
      ((a.setShelf p shelf.emptied).destroy items.reverse).world = u := by
  induction items generalizing a shelf with
  | nil =>
    have ended : FastPool.advance (a.inside t (.clear p) p shelf.pool) t =
        some (a.setShelf p shelf).world := by
      simp [FastPool.advance, Shelf.pool, idle]
      rw [← inside_idle, Shelf.pool, idle]
      rfl
    have same : shelf.emptied = shelf := by simp [Shelf.emptied, ← idle]
    rw [finishes_advance ended, finishes_idle rfl, same]
    rfl
  | cons item rest ih =>
    have popped : FastPool.advance (a.inside t (.clear p) p shelf.pool) t =
        some (a.inside t (.clearCount p item) p (shelf.pool.dequeue rest)) := by
      simp [FastPool.advance, Shelf.pool, idle]
    have uncounted : FastPool.advance (a.inside t (.clearCount p item) p (shelf.pool.dequeue rest)) t =
        some ((a.destroy [item]).inside t (.clear p) p shelf.behind.pool) := by
      simp [FastPool.advance, Shelf.pool, Shelf.behind, idle, FastBufferPool.dequeue,
        FastBufferPool.countDown, CountedQueue.LockFreeQueue.dequeue,
        CountedQueue.LockFreeQueue.countDown, usizePred]
    have behind : shelf.behind.idle = rest := congrArg List.tail idle
    rw [finishes_advance popped, finishes_advance uncounted, ih behind]
    simp [Shelf.emptied, Shelf.behind, setShelf, destroy]

theorem flush_finishes {newest : List Item} (cache : a.caches t = newest.reverse) :
    Finishes t (a.inside t (.flush p) p shelf.pool) u ↔ (a.flush t p shelf newest).world = u := by
  induction newest generalizing a shelf with
  | nil =>
    have ended : FastPool.advance (a.inside t (.flush p) p shelf.pool) t =
        some (a.setShelf p shelf).world := by
      simp [FastPool.advance, cache, inside_idle]
    have empty : Function.update a.caches t [] = a.caches := by
      apply Function.update_eq_self_iff.mpr
      simp [cache]
    rw [finishes_advance ended, finishes_idle rfl]
    simp [flush, Shelf.stock, setCache, setShelf, destroy, empty]
  | cons item rest ih =>
    have top : (a.caches t).getLast? = some item := by simp [cache]
    have others : (a.caches t).dropLast = rest.reverse := by simp [cache]
    by_cases fits : 1 ≤ shelf.room
    · have admitted : FastPool.advance (a.inside t (.flush p) p shelf.pool) t =
          some ((a.setCache t rest.reverse).inside t (.flushPush p item) p shelf.pool) := by
        simp [FastPool.advance, top, others, hasRoom_iff.mpr fits]
      have queued : FastPool.advance
          ((a.setCache t rest.reverse).inside t (.flushPush p item) p shelf.pool) t =
          some ((a.setCache t rest.reverse).inside t (.flushCount p) p (shelf.pool.enqueue item)) := by
        simp [FastPool.advance]
      have counted : FastPool.advance
          ((a.setCache t rest.reverse).inside t (.flushCount p) p (shelf.pool.enqueue item)) t =
          some ((a.setCache t rest.reverse).inside t (.flush p) p (shelf.stock [item] fits).pool) := by
        simp [FastPool.advance, pushed fits]
      have kept : (a.setCache t rest.reverse).caches t = rest.reverse := Function.update_self t _ _
      have room : shelf.room = (shelf.stock [item] fits).room + 1 := by
        simp only [Shelf.room, Shelf.stock, List.length_append, List.length_singleton] at fits ⊢
        omega
      rw [finishes_advance admitted, finishes_advance queued, finishes_advance counted, ih kept]
      simp [flush, room, Shelf.stock, setCache, setShelf, destroy]
    · have refused : FastPool.advance (a.inside t (.flush p) p shelf.pool) t =
          some (((a.setCache t rest.reverse).destroy [burned item]).inside t (.flush p) p
            shelf.pool) := by
        simp [FastPool.advance, top, others, mt hasRoom_iff.mp fits]
        rfl
      have kept : ((a.setCache t rest.reverse).destroy [burned item]).caches t = rest.reverse :=
        Function.update_self t _ _
      have none : shelf.room = 0 := Nat.lt_one_iff.mp (Nat.lt_of_not_le fits)
      rw [finishes_advance refused, ih kept]
      simp [flush, none, Shelf.stock, setCache, setShelf, destroy]

end Rest

/-! A call is over before the next one begins. -/

theorem alone_of_begun {call : Action ι θ} (begun : FastPool.next s call = some m)
    (acts : actor call = some t) : Alone s call u ↔ Finishes t m u := by
  unfold Alone Taken
  simp [begun, acts]

theorem alone_of_done {call : Action ι θ} (done : FastPool.next s call = some m)
    (acts : actor call = none) : Alone s call u ↔ m = u := by
  unfold Alone Taken
  simp [done, acts]

def Words : Action ι θ → Prop
  | .new _ config => config.maxPoolSize < 2 ^ 64 ∧ config.minPoolSize < 2 ^ 64
  | _ => True

/-- Between calls, the call alone does what its one step says. -/
def Agrees (a : Rest ι θ) (call : Action ι θ) : Prop :=
  ∀ u, Alone a.world call u ↔ ∃ b, a.next call = some b ∧ b.world = u

variable {a : Rest ι θ}

theorem agrees_stuck {call : Action ι θ} (stuck : FastPool.next a.world call = none)
    (none : a.next call = none) : Agrees a call := by
  intro u
  simp [Alone, Taken, stuck, none]

theorem agrees_done {call : Action ι θ} {b : Rest ι θ} (acts : actor call = none)
    (done : FastPool.next a.world call = some b.world) (step : a.next call = some b) :
    Agrees a call := by
  intro u
  rw [alone_of_done done acts, step]
  simp

theorem agrees_begun {call : Action ι θ} {result : Option (Rest ι θ)} (acts : actor call = some t)
    (begun : FastPool.next a.world call = some m) (step : a.next call = result)
    (finishes : ∀ u, Finishes t m u ↔ ∃ b, result = some b ∧ b.world = u) : Agrees a call := by
  intro u
  rw [alone_of_begun begun acts, step]
  exact finishes u

omit [DecidableEq ι] [DecidableEq θ] in
theorem new_shelf {config : PoolConfig} (serial : Nat)
    (words : config.maxPoolSize < 2 ^ 64 ∧ config.minPoolSize < 2 ^ 64) :
    (∃ items shelf, freshItems config.bufferSize config.minPoolSize serial = .ok items ∧
      Shelf.new config serial = some shelf ∧
      shelf.pool = ⟨⟨items, config.minPoolSize % 2 ^ 64⟩, config, ⟨0, 0, 0, 0⟩⟩) ∨
    ∃ reason, freshItems config.bufferSize config.minPoolSize serial = .error reason ∧
      Shelf.new config serial = none := by
  unfold Shelf.new
  split
  · rename_i items made
    have size : config.minPoolSize % 2 ^ 64 = items.length :=
      (Nat.mod_eq_of_lt words.2).trans (freshItems_length made).symm
    refine Or.inl ⟨items, _, made, dif_pos words, ?_⟩
    rw [size]
    rfl
  · rename_i reason failed
    exact Or.inr ⟨reason, failed, rfl⟩

theorem new_agrees {p : ι} {config : PoolConfig} (words : Words (.new p config : Action ι θ)) :
    Agrees a (.new p config) := by
  cases absent : a.shelves p with
  | some shelf =>
    exact agrees_stuck (by simp [FastPool.next, Rest.world, absent]) (by simp [Rest.next, absent])
  | none =>
    obtain ⟨items, shelf, fresh, made, same⟩ | ⟨reason, failed, unmade⟩ :=
      new_shelf a.created words
    · have done : FastPool.next a.world (.new p config) =
          some ((a.setShelf p shelf).make config.minPoolSize).world := by
        have world : ((a.setShelf p shelf).make config.minPoolSize).world =
            { (a.setShelf p shelf).world with created := a.created + config.minPoolSize } := rfl
        rw [world, Rest.setShelf_world, same]
        simp [FastPool.next, Rest.world, absent, fresh]
      exact agrees_done rfl done (by simp [Rest.next, absent, made])
    · exact agrees_stuck (by simp [FastPool.next, Rest.world, absent, failed])
        (by simp [Rest.next, absent, unmade])

theorem acquire_agrees {p : ι} : Agrees a (.acquire t p) := by
  by_cases alive : a.tornDown t = false
  · cases here : a.shelves p with
    | none => exact agrees_stuck (by simp [FastPool.next, Rest.world, here]) (by simp [Rest.next, here])
    | some shelf =>
      have begun : FastPool.next a.world (.acquire t p) =
          some (a.inside t (.acquireCache p) p (shelf.counted .countAcquired).pool) := by
        simp [FastPool.next, Rest.world, here, alive, Rest.inside]
        rfl
      apply agrees_begun rfl begun (by simp [Rest.next, here, alive]; rfl)
      intro u
      exact Rest.acquire_finishes
  · exact agrees_stuck (by simp [FastPool.next, Rest.world, alive]) (by simp [Rest.next, alive])

theorem drop_agrees {i : Nat} : Agrees a (.drop t i) := by
  cases found : a.held[i]? with
  | none => exact agrees_stuck (by simp [FastPool.next, Rest.world, found]) (by simp [Rest.next, found])
  | some handle =>
    cases here : a.shelves handle.pool with
    | none =>
      exact agrees_stuck (by simp [FastPool.next, Rest.world, found, here])
        (by simp [Rest.next, found, here])
    | some shelf =>
      have begun : FastPool.next a.world (.drop t i) =
          some ({ a with held := a.held.eraseIdx i }.inside t
            (.dropStore handle.pool (burned handle.item)) handle.pool
            (shelf.counted .countReturned).pool) := by
        simp [FastPool.next, Rest.world, found, here, Rest.inside]
        rfl
      apply agrees_begun rfl begun (by simp [Rest.next, found, here]; rfl)
      intro u
      rw [Rest.store_finishes]
      simp
      rfl

theorem warm_agrees {p : ι} {targetSize : Nat} : Agrees a (.warm t p targetSize) := by
  cases here : a.shelves p with
  | none => exact agrees_stuck (by simp [FastPool.next, Rest.world, here]) (by simp [Rest.next, here])
  | some shelf =>
    have begun : FastPool.next a.world (.warm t p targetSize) =
        some (a.inside t (.warm p (shelf.lacks targetSize)) p shelf.pool) := by
      rw [Rest.inside, Rest.setPool_world here]
      simp [FastPool.next, Rest.world, here]
      rfl
    apply agrees_begun rfl begun (by simp [Rest.next, here]; rfl)
    intro u
    rw [Rest.warm_finishes (shelf.lacks_le targetSize)]
    simp only [Rest.warm_eq_some]
    constructor
    · rintro ⟨items, few, fresh, same⟩
      exact ⟨_, ⟨items, few, fresh, rfl⟩, same⟩
    · rintro ⟨b, ⟨items, few, fresh, rfl⟩, same⟩
      exact ⟨items, few, fresh, same⟩

theorem clear_agrees {p : ι} : Agrees a (.clear t p) := by
  cases here : a.shelves p with
  | none => exact agrees_stuck (by simp [FastPool.next, Rest.world, here]) (by simp [Rest.next, here])
  | some shelf =>
    have begun : FastPool.next a.world (.clear t p) = some (a.inside t (.clear p) p shelf.pool) := by
      rw [Rest.inside, Rest.setPool_world here]
      simp [FastPool.next, Rest.world, here]
    apply agrees_begun rfl begun (by simp [Rest.next, here]; rfl)
    intro u
    rw [Rest.clear_finishes rfl]
    simp

theorem clearThreadCache_agrees {p : ι} : Agrees a (.clearThreadCache t p) := by
  by_cases alive : a.tornDown t = false
  · cases here : a.shelves p with
    | none => exact agrees_stuck (by simp [FastPool.next, Rest.world, here]) (by simp [Rest.next, here])
    | some shelf =>
      have begun : FastPool.next a.world (.clearThreadCache t p) =
          some (a.inside t (.flush p) p shelf.pool) := by
        rw [Rest.inside, Rest.setPool_world here]
        simp [FastPool.next, Rest.world, here, alive]
      apply agrees_begun rfl begun (by simp [Rest.next, here, alive]; rfl)
      intro u
      rw [Rest.flush_finishes (List.reverse_reverse _).symm]
      simp
  · exact agrees_stuck (by simp [FastPool.next, Rest.world, alive]) (by simp [Rest.next, alive])

theorem exit_agrees : Agrees a (.exit t) := by
  apply agrees_begun rfl rfl rfl
  intro u
  rw [finishes_idle rfl]
  constructor
  · intro same
    exact ⟨_, rfl, same⟩
  · rintro ⟨b, step, same⟩
    cases step
    exact same

theorem held_agrees {call : Action ι θ} {i : Nat} {change : FastHandle ι → Option (Rest ι θ)}
    (acts : actor call = none)
    (concrete : FastPool.next a.world call = a.held[i]?.bind fun handle => (change handle).map Rest.world)
    (step : a.next call = a.held[i]?.bind change) : Agrees a call := by
  intro u
  unfold Alone Taken
  rw [acts, concrete, step]
  cases found : a.held[i]? with
  | none => simp
  | some handle => cases after : change handle <;> simp [after]

theorem agrees {call : Action ι θ} (words : Words call) : Agrees a call := by
  cases call with
  | new p config => exact new_agrees words
  | acquire t p => exact acquire_agrees
  | drop t i => exact drop_agrees
  | dropNow i => exact held_agrees rfl rfl rfl
  | leak i => exact held_agrees rfl rfl rfl
  | warm t p targetSize => exact warm_agrees
  | clear t p => exact clear_agrees
  | clearThreadCache t p => exact clearThreadCache_agrees
  | advance t =>
    have idle : FastPool.advance a.world t = none := advance_idle rfl
    exact agrees_stuck idle rfl
  | exit t => exact exit_agrees
  | use i op =>
    apply held_agrees rfl _ rfl
    refine Option.bind_congr fun handle _ => ?_
    cases (step op handle.item.buffer).state? <;> rfl
  | replace i b => exact held_agrees rfl rfl rfl

theorem inTurn_iff {calls : List (Action ι θ)} (words : ∀ call ∈ calls, Words call) :
    InTurn a.world calls u ↔ ∃ b, exec Rest.next a calls = some b ∧ b.world = u := by
  induction calls generalizing a with
  | nil =>
    simp only [exec, Option.some.injEq, exists_eq_left']
    constructor
    · intro turn
      cases turn
      rfl
    · intro same
      subst same
      exact .nil
  | cons call calls ih =>
    have first := agrees (a := a) (words call List.mem_cons_self)
    have others := fun b : Rest ι θ => ih (a := b) fun other later =>
      words other (List.mem_cons_of_mem call later)
    constructor
    · intro turn
      cases turn with
      | cons alone later =>
        obtain ⟨b, step, rfl⟩ := (first _).mp alone
        obtain ⟨c, rest, same⟩ := (others b).mp later
        exact ⟨c, Option.bind_eq_some_iff.mpr ⟨b, step, rest⟩, same⟩
    · rintro ⟨c, script, same⟩
      obtain ⟨b, step, rest⟩ := Option.bind_eq_some_iff.mp script
      exact .cons ((first _).mpr ⟨b, step, rfl⟩) ((others b).mpr ⟨c, rest, same⟩)

/-- As long as no two calls overlap, every call on the lock-free pools is one step on what lies at
rest, and the counter that `available` reads is the number of the pool's idle buffers, within the
larger of its limits. -/
theorem calls_in_turn {calls : List (Action ι θ)} (words : ∀ call ∈ calls, Words call) :
    (InTurn World.empty calls u ↔ ∃ b, exec Rest.next Rest.empty calls = some b ∧ b.world = u) ∧
    (InTurn World.empty calls u → ∀ p pool, u.pools p = some pool →
      pool.available = pool.globalPool.items.length ∧
      pool.available ≤ max pool.config.maxPoolSize pool.config.minPoolSize) := by
  have turns : InTurn World.empty calls u ↔
      ∃ b, exec Rest.next Rest.empty calls = some b ∧ b.world = u := inTurn_iff (a := Rest.empty) words
  refine ⟨turns, fun turn p pool here => ?_⟩
  obtain ⟨b, -, rfl⟩ := turns.mp turn
  obtain ⟨shelf, -, rfl⟩ := Option.map_eq_some_iff.mp here
  exact ⟨rfl, shelf.few⟩

theorem calls_in_turn_flushed :
    ∃ u, InTurn World.empty [.new () ⟨8, 2, 0⟩, .warm true () 2, .acquire false (), .drop false 0,
      .clearThreadCache false ()] u ∧
      ∀ p pool, u.pools p = some pool → pool.available = pool.globalPool.items.length ∧
        pool.available ≤ max pool.config.maxPoolSize pool.config.minPoolSize := by
  have words : ∀ call ∈ [(.new () ⟨8, 2, 0⟩ : FastPool.Action Unit Bool), .warm true () 2,
      .acquire false (), .drop false 0, .clearThreadCache false ()], Words call := by
    simp [Words]
  have both (u : FastPool.World Unit Bool) := calls_in_turn (u := u) words
  have turn := (both _).1.mpr ⟨_, rfl, rfl⟩
  exact ⟨_, turn, (both _).2 turn⟩

end

end Secbuf.FastSequential
