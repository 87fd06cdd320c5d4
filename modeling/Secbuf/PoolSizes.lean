import Secbuf.BufferMakers
import Secbuf.PoolIsolation

/-! The size of the buffers the pools hand out. `burn` keeps `data.len()`, so an idle buffer
is as long as its last holder left it, and a buffer found in a thread's cache is as long as the
pool that made it makes them, whichever pool that is. -/

namespace Secbuf.PoolSizes
open Calls Storage BufferCore BufferOps BufferScript Custody BufferMakers

structure Fits (config : PoolConfig) (b : Buffer) : Prop where
  valid : Valid b
  cursor : b.pos = 0
  size : config.bufferSize ≤ b.data.len

theorem fits_new {config : PoolConfig} {b : Buffer} (made : Buffer.new config.bufferSize = .ok b) :
    Fits config b := by
  obtain ⟨-, bytes, -, -, cursor, length⟩ := Buffer.new_cases made
  refine ⟨⟨by omega, by omega⟩, cursor, ?_⟩
  rw [ByteVec.len, bytes, ByteVec.zeros_length]

theorem burn_len (b : Buffer) : b.burn.data.len = b.data.len := ByteVec.zeros_length _

theorem fits_burn {config : PoolConfig} {b : Buffer} (size : config.bufferSize ≤ b.data.len) :
    Fits config b.burn :=
  ⟨⟨le_rfl, Nat.zero_le _⟩, rfl, by rw [burn_len]; exact size⟩

theorem Fits.put {config : PoolConfig} {b : Buffer} (fits : Fits config b) (bytes : Slice)
    (small : bytes.val.length ≤ config.bufferSize) : ∃ after, putBytes bytes.val b = .ok () after := by
  have size := fits.size
  have cursor := fits.cursor
  exact ⟨_, (putBytes_spec fits.valid bytes.2).trans (if_pos (by omega))⟩

/-- The buffer is one the new holder can use as the pool's documentation says. -/
def Serves (config : PoolConfig) (b : Buffer) : Prop :=
  config.bufferSize ≤ b.data.len ∧ b.pos = 0 ∧
    ∀ bytes : Slice, bytes.val.length ≤ config.bufferSize →
      ∃ after, putBytes bytes.val b = .ok () after

theorem Fits.serves {config : PoolConfig} {b : Buffer} (fits : Fits config b) :
    Serves config b := ⟨fits.size, fits.cursor, fits.put⟩

/-! The standard pool: what counts is how long a buffer is when it is given back. -/

section
open StandardPool
variable {ι : Type}

def returnedSizes : Rules where
  ready := Fits
  stashed _ := True
  owned _ _ := True
  uses _ _ := True
  returns config b := config.bufferSize ≤ b.data.len
  fresh := fits_new
  handed _ := trivial
  used _ _ _ := trivial
  burned _ size := ⟨fits_burn size, trivial⟩

/-- A handle dropped into a pool that has room gives back at least `buffer_size` bytes. -/
def GivesBackEnough (s : World ι) : StandardPool.Action ι → Prop
  | .drop i => ∀ handle pool, s.held[i]? = some handle → s.pools handle.pool = some pool →
    pool.buffers.length < pool.config.maxPoolSize → pool.config.bufferSize ≤ handle.buffer.data.len
  | _ => True

theorem givesBackEnough_allows {s : World ι} {action : StandardPool.Action ι}
    (enough : GivesBackEnough s action) : allows returnedSizes s action := by
  cases action with
  | drop i => exact enough
  | use i op => exact fun _ _ => trivial
  | replace i b => exact fun _ _ _ _ => trivial
  | _ => trivial

variable [DecidableEq ι]

/-- A buffer given back short is the next one out. -/
theorem short_return {s t : World ι} {i : Nat} (taken : StandardPool.Taken s (.drop i) t)
    (short : ¬ GivesBackEnough s (.drop i)) :
    ∃ handle pool u b, s.held[i]? = some handle ∧ s.pools handle.pool = some pool ∧
      StandardPool.Taken t (.acquire handle.pool) u ∧ u.held = ⟨handle.pool, b⟩ :: t.held ∧
      b.data.len < pool.config.bufferSize := by
  simp only [GivesBackEnough, not_forall, not_le] at short
  obtain ⟨handle, pool, found, here, room, less⟩ := short
  simp only [StandardPool.Taken, StandardPool.next, found, here, Option.bind_eq_bind,
    Option.bind_some, Option.some.injEq] at taken
  subst taken
  obtain ⟨after, popped⟩ : ∃ after,
      (pool.dropHandle handle.buffer).acquire = .ok (handle.buffer.burn, after) := by
    have top : (pool.buffers ++ [handle.buffer.burn]).getLast? = some handle.buffer.burn :=
      List.getLast?_concat
    simp only [PoolInner.acquire, PoolInner.dropHandle, if_pos room, top]
    exact ⟨_, rfl⟩
  let t : World ι := { s.setPool handle.pool (pool.dropHandle handle.buffer) with
    held := s.held.eraseIdx i }
  have there : t.pools handle.pool = some (pool.dropHandle handle.buffer) :=
    Function.update_self _ _ _
  refine ⟨handle, pool, { t.setPool handle.pool after with
    held := ⟨handle.pool, handle.buffer.burn⟩ :: t.held }, handle.buffer.burn, found, here, ?_, rfl,
    by rw [burn_len]; exact less⟩
  change StandardPool.next t (.acquire handle.pool) = _
  simp only [StandardPool.next, there, popped, Option.bind_eq_bind, Option.bind_some]

/-- In every run whose handle drops give back enough, each buffer `acquire` returns serves the
pool's `buffer_size`; the first drop that does not makes the next `acquire` return a short one. -/
theorem standard_acquire_serves {s : World ι}
    (run : Reaches (Guarded GivesBackEnough StandardPool.Taken) World.empty s) :
    (∀ p t, StandardPool.Taken s (.acquire p) t →
      ∃ pool b, s.pools p = some pool ∧ t.held = ⟨p, b⟩ :: s.held ∧ Serves pool.config b) ∧
    ∀ i t, StandardPool.Taken s (.drop i) t → ¬ GivesBackEnough s (.drop i) →
      ∃ handle pool u b, s.held[i]? = some handle ∧ s.pools handle.pool = some pool ∧
        StandardPool.Taken t (.acquire handle.pool) u ∧ u.held = ⟨handle.pool, b⟩ :: t.held ∧
        b.data.len < pool.config.bufferSize := by
  have kept : Kept returnedSizes s :=
    kept_run run fun _ _ _ _ taken => ⟨givesBackEnough_allows taken.1, taken.2⟩
  refine ⟨fun p t taken => ?_, fun i t => short_return⟩
  obtain ⟨pool, buffer, here, held, ready⟩ := acquired_ready kept taken
  exact ⟨pool, buffer, here, held, ready.serves⟩

end

section
open StandardPool

def eightByOne : PoolConfig := ⟨8, 1, 0⟩

theorem standard_acquire_serves_again :
    ∃ s t : World Unit, ∃ pool b,
      exec StandardPool.next World.empty
        [.new () eightByOne, .acquire (), .use 0 (.putByte 7), .drop 0] = some s ∧
      StandardPool.Taken s (.acquire ()) t ∧ s.pools () = some pool ∧
      t.held = [⟨(), b⟩] ∧ Serves pool.config b := by
  obtain ⟨s, script, empty, t, taken⟩ : ∃ s : World Unit, exec StandardPool.next World.empty
      [.new () eightByOne, .acquire (), .use 0 (.putByte 7), .drop 0] = some s ∧ s.held = [] ∧
      ∃ t, StandardPool.Taken s (.acquire ()) t := ⟨_, rfl, rfl, _, rfl⟩
  have meets : Meets StandardPool.next GivesBackEnough (World.empty : World Unit)
      [.new () eightByOne, .acquire (), .use 0 (.putByte 7), .drop 0] := by
    refine ⟨trivial, trivial, trivial, ?_, trivial⟩
    intro handle pool found here _
    cases found
    cases here
    decide
  obtain ⟨pool, b, here, held, serves⟩ :=
    (standard_acquire_serves (.of_script script meets)).1 () t taken
  exact ⟨s, t, pool, b, script, taken, here, empty ▸ held, serves⟩

/-- A holder resizes its buffer to two bytes and drops it: the next one gets two bytes of the
promised eight, and putting eight overflows. -/
theorem standard_acquire_short :
    ∃ t : World Unit, ∃ b,
      exec StandardPool.next World.empty
        [.new () eightByOne, .acquire (), .use 0 (.resize 2), .drop 0, .acquire ()] = some t ∧
      t.held = [⟨(), b⟩] ∧ b.data.len = 2 ∧ ¬ Serves eightByOne b ∧
      putBytes [1, 2, 3, 4, 5, 6, 7, 8] b = .err .bufferOverflow b :=
  ⟨_, _, rfl, rfl, rfl, fun serves => absurd serves.1 (by decide), rfl⟩

end

/-! The fast pool: what counts is whose buffer lies on top of the calling thread's cache. -/

section
open FastPool

/-- The operations the holders keep to: `put_*`, `get_*`, `set_pos`, `reset` and `burn`. -/
def Plain : BufferOp → Prop
  | .setPos _ | .reset | .burn | .putByte _ | .putU32 _ | .putU64 _ | .putBytes _
  | .putBytesFast _ _ | .putString _ | .getByte | .getBool | .getU32 | .getU64 | .getBytes _
  | .getBytesRef _ | .getPtr _ | .getString | .getWritePtr _ _ _ => True
  | _ => False

theorem plain_change {op : BufferOp} (plain : Plain op) (b : Buffer) :
    op.change b = .keep ∨ op.change b = .wipe ∨ ∃ start src, op.change b = .store start src := by
  have stores : ∀ (room : Prop) [Decidable room] (start : Nat) (src : List UInt8),
      storeIf room start src = .keep ∨ storeIf room start src = .wipe ∨
        ∃ start' src', storeIf room start src = .store start' src' := by
    intro room _ start src
    unfold storeIf
    split_ifs
    · exact Or.inr (Or.inr ⟨start, src, rfl⟩)
    · exact Or.inl rfl
  cases op with
  | putString s =>
    simp only [BufferOp.change]
    split_ifs
    · exact Or.inl rfl
    · exact Or.inr (Or.inr ⟨_, _, rfl⟩)
    · exact stores _ _ _
  | burn => exact Or.inr (Or.inl rfl)
  | putByte val => exact stores _ _ _
  | putU32 val => exact stores _ _ _
  | putU64 val => exact stores _ _ _
  | putBytes bytes => exact stores _ _ _
  | putBytesFast target bytes => exact stores _ _ _
  | getWritePtr len offset src => exact stores _ _ _
  | _ => first | exact Or.inl rfl | exact plain.elim

theorem plain_len {b t : Buffer} {op : BufferOp} (valid : Valid b) (plain : Plain op)
    (stepped : Stepped b op t) : Valid t ∧ t.data.len = b.data.len := by
  obtain ⟨kept, effect⟩ := step_lands valid op t stepped
  refine ⟨kept, ?_⟩
  generalize t.data = w at effect ⊢
  rcases plain_change plain b with same | same | ⟨start, src, same⟩ <;> rw [same] at effect
  · cases effect
    rfl
  · cases effect
    exact ByteVec.zeros_length _
  · cases effect with
    | store _ _ fits => exact ByteVec.len_store fits

variable {ι θ : Type}

def ownSizes : Rules where
  ready := Fits
  stashed b := Valid b ∧ b.pos = 0
  owned config b := Valid b ∧ config.bufferSize ≤ b.data.len
  uses _ := Plain
  returns _ _ := True
  fresh := fits_new
  handed fits := ⟨fits.valid, fits.size⟩
  used owned plain stepped := by
    obtain ⟨valid, same⟩ := plain_len owned.1 plain stepped
    exact ⟨valid, same ▸ owned.2⟩
  burned owned _ := ⟨fits_burn owned.2, ⟨le_rfl, Nat.zero_le _⟩, rfl⟩

def PlainHolders : FastPool.Action ι θ → Prop
  | .use _ op => Plain op
  | .replace _ _ => False
  | _ => True

theorem plainHolders_keepsLength {action : FastPool.Action ι θ} (plain : PlainHolders action) :
    KeepsLength action := by
  cases action with
  | use i op => exact fun b t valid stepped => (plain_len valid plain stepped).2
  | replace i b => exact plain.elim
  | _ => trivial

/-- The buffer on top of the thread's cache was made by a pool whose `buffer_size` is at least that
of `p`. -/
def MadeLargeEnough (r : Recorded ι θ) (t : θ) (p : ι) : Prop :=
  ∀ item q own config, (r.world.caches t).getLast? = some item → r.maker item.serial = some q →
    Configured q own r.world → Configured p config r.world → config.bufferSize ≤ own.bufferSize

/-- A buffer leaves a thread's cache, for the caller of `acquire` or for the queue that
`clear_thread_cache` fills, only for a pool whose buffers are no larger than its maker's. -/
def GivesLargeEnough (r : Recorded ι θ) : FastPool.Action ι θ → Prop
  | .advance t =>
    match r.world.threads t with
    | .acquireCache p => MadeLargeEnough r t p
    | .flush p => (∀ pool, r.world.pools p = some pool → pool.hasRoom) → MadeLargeEnough r t p
    | _ => True
  | _ => True

variable {r after : Recorded ι θ}

theorem largeEnough_allows (kept : Kept ownSizes r.world) (all : Everywhere (AsMade r) r.world)
    {action : FastPool.Action ι θ} (plain : PlainHolders action) (gives : GivesLargeEnough r action) :
    allows ownSizes r.world action := by
  have ready : ∀ t p, MadeLargeEnough r t p → TakenFromCache ownSizes r.world t p := by
    intro t p enough item pool top here
    have member := List.mem_of_getLast? top
    obtain ⟨valid, cursor⟩ := kept.cached t item member
    obtain ⟨q, own, maker, there, size⟩ := (all.cached t item member).size
    refine ⟨valid, cursor, ?_⟩
    rw [size]
    exact enough item q own pool.config top maker there ⟨pool, here, rfl⟩
  cases action with
  | drop t i => exact fun _ _ _ _ => trivial
  | use i op => exact fun _ _ => plain
  | replace i b => exact plain.elim
  | advance t =>
    simp only [allows, GivesLargeEnough] at gives ⊢
    cases pc : r.world.threads t with
    | acquireCache p =>
      simp only [pc] at gives ⊢
      exact ready t p gives
    | flush p =>
      simp only [pc] at gives ⊢
      exact fun room => ready t p (gives room)
    | _ => trivial
  | _ => trivial

variable [DecidableEq ι] [DecidableEq θ]

theorem plain_asMade
    (run : Reaches (Guarded (fun _ => PlainHolders) Recorded.Taken) Recorded.empty r) :
    Everywhere (AsMade r) r.world :=
  asMade_run (run.of_steps fun _ _ _ taken => ⟨plainHolders_keepsLength taken.1, taken.2⟩)

theorem acquired_serves_iff
    (run : Reaches (Guarded (fun _ => PlainHolders) Recorded.Taken) Recorded.empty r) {t : θ} {p : ι}
    {item : Item} (done : r.world.threads t = .acquireDone p item) :
    ∃ q own config, r.maker item.serial = some q ∧ Configured q own r.world ∧
      Configured p config r.world ∧
      (Serves config item.buffer ↔ config.bufferSize ≤ own.bufferSize) := by
  obtain ⟨q, own, maker, there, size⟩ := ((plain_asMade run).carrying done rfl).size
  obtain ⟨pool, here, blank⟩ :=
    (PoolIsolation.fast_kept (Recorded.world_run run)).carried t p item (by rw [done]; rfl)
  refine ⟨q, own, pool.config, maker, there, ⟨pool, here, rfl⟩, ?_⟩
  constructor
  · intro serves
    exact size ▸ serves.1
  · intro enough
    exact Fits.serves ⟨blank.valid, blank.pos, size.symm ▸ enough⟩

theorem large_enough_serves
    (run : Reaches (Guarded (fun r action => PlainHolders action ∧ GivesLargeEnough r action)
      Recorded.Taken) Recorded.empty r) : Kept ownSizes r.world := by
  have both : Kept ownSizes r.world ∧ Everywhere (AsMade r) r.world := by
    apply run.keeps ⟨kept_empty ownSizes, everywhere_empty⟩
    rintro r action after ⟨kept, all⟩ ⟨⟨plain, gives⟩, taken⟩
    exact ⟨kept_step kept (largeEnough_allows kept all plain gives)
      (step_of_taken (Recorded.taken_world taken)),
      asMade_step all (plainHolders_keepsLength plain) taken⟩
  exact both.1

/-- A thread that finds a buffer of a smaller pool on top of its cache is given that buffer. -/
theorem short_hit (all : Everywhere (AsMade r) r.world) {t : θ} {p : ι}
    (looks : r.world.threads t = .acquireCache p) (taken : r.Taken (.advance t) after)
    (small : ¬ MadeLargeEnough r t p) :
    ∃ config item, Configured p config r.world ∧ after.world.threads t = .acquireDone p item ∧
      item.buffer.data.len < config.bufferSize := by
  simp only [MadeLargeEnough, not_forall, not_le] at small
  obtain ⟨item, q, own, config, top, maker, there, here, less⟩ := small
  obtain ⟨other, own', maker', there', size⟩ := (all.cached t item (List.mem_of_getLast? top)).size
  obtain ⟨pool, found, rfl⟩ := here
  have went := Recorded.taken_world taken
  simp only [FastPool.Taken, FastPool.next, FastPool.advance, looks, found, top, Option.bind_eq_bind,
    Option.bind_some, Option.some.injEq] at went
  refine ⟨pool.config, item, ⟨pool, found, rfl⟩, by rw [← went]; exact Function.update_self .., ?_⟩
  obtain rfl := Option.some.inj (maker'.symm.trans maker)
  obtain ⟨large, found', rfl⟩ := there
  obtain ⟨same, found'', rfl⟩ := there'
  obtain rfl := Option.some.inj (found''.symm.trans found')
  rw [size]
  exact less

/-- In every run, on any number of pools and threads, in which holders keep to the plain
operations, a buffer `acquire` returns serves the pool exactly where the pool that made it has a
`buffer_size` no smaller. Where no buffer of a smaller pool is taken from a cache for a larger one,
all of them serve; and the first `acquire` that finds one on top of the cache returns it short. -/
theorem fast_acquire_serves
    (run : Reaches (Guarded (fun _ => PlainHolders) Recorded.Taken) Recorded.empty r) :
    (∀ t p item, r.world.threads t = .acquireDone p item →
      ∃ q own config, r.maker item.serial = some q ∧ Configured q own r.world ∧
        Configured p config r.world ∧
        (Serves config item.buffer ↔ config.bufferSize ≤ own.bufferSize)) ∧
    (Reaches (Guarded (fun r action => PlainHolders action ∧ GivesLargeEnough r action)
        Recorded.Taken) Recorded.empty r →
      ∀ t p item, r.world.threads t = .acquireDone p item →
        ∃ config, Configured p config r.world ∧ Serves config item.buffer) ∧
    ∀ t p after, r.world.threads t = .acquireCache p → r.Taken (.advance t) after →
      ¬ MadeLargeEnough r t p →
      ∃ config item, Configured p config r.world ∧ after.world.threads t = .acquireDone p item ∧
        item.buffer.data.len < config.bufferSize := by
  refine ⟨fun _ _ _ done => acquired_serves_iff run done, ?_,
    fun _ _ _ looks taken small => short_hit (plain_asMade run) looks taken small⟩
  intro given t p item done
  obtain ⟨pool, here, fits⟩ := (large_enough_serves given).carried t p item (by rw [done]; rfl)
  exact ⟨pool.config, ⟨pool, here, rfl⟩, fits.serves⟩

def small : PoolConfig := ⟨8, 4, 0⟩
def large : PoolConfig := ⟨64, 4, 0⟩

def acquireAndDrop (p : Bool) : List (FastPool.Action Bool Unit) :=
  [.acquire () p, .advance (), .advance (), .advance (), .drop () 0, .advance ()]

def sharing : List (FastPool.Action Bool Unit) :=
  [.new false small, .new true large] ++ acquireAndDrop true ++ [.acquire () false, .advance ()]

theorem fast_acquire_serves_shared :
    ∃ r : Recorded Bool Unit, ∃ item config, exec Recorded.next Recorded.empty sharing = some r ∧
      r.world.threads () = .acquireDone false item ∧ r.maker item.serial = some true ∧
      Configured false config r.world ∧ Serves config item.buffer := by
  obtain ⟨r, script, item, done, maker⟩ : ∃ r : Recorded Bool Unit,
      exec Recorded.next Recorded.empty sharing = some r ∧
      ∃ item, r.world.threads () = .acquireDone false item ∧ r.maker item.serial = some true :=
    ⟨_, rfl, _, rfl, rfl⟩
  have meets : Meets Recorded.next
      (fun r action => PlainHolders action ∧ GivesLargeEnough r action)
      (Recorded.empty : Recorded Bool Unit) sharing := by
    refine ⟨⟨trivial, trivial⟩, ⟨trivial, trivial⟩, ⟨trivial, trivial⟩, ⟨trivial, ?_⟩,
      ⟨trivial, trivial⟩, ⟨trivial, trivial⟩, ⟨trivial, trivial⟩, ⟨trivial, trivial⟩,
      ⟨trivial, trivial⟩, ⟨trivial, ?_⟩, trivial⟩
    · intro item q own config top
      cases top
    · intro item q own config top maker there here
      cases top
      cases maker
      obtain ⟨_, found, rfl⟩ := there
      obtain ⟨_, found', rfl⟩ := here
      cases found
      cases found'
      decide
  have given := Reaches.of_script script meets
  have plain : Reaches (Guarded (fun _ => PlainHolders) Recorded.Taken) Recorded.empty r :=
    given.of_steps fun _ _ _ taken => ⟨taken.1.1, taken.2⟩
  obtain ⟨config, here, serves⟩ := (fast_acquire_serves plain).2.1 given () false item done
  exact ⟨r, item, config, script, done, maker, here, serves⟩

/-- Two pools used from one thread: the buffer dropped by a handle of the small pool comes out
of the large one, eight bytes where sixty-four are promised. -/
theorem fast_acquire_short :
    ∃ s : World Bool Unit, ∃ pool item,
      exec FastPool.next World.empty ([.new false small, .new true large] ++ acquireAndDrop false ++
        [.acquire () true, .advance ()]) = some s ∧
      s.threads () = .acquireDone true item ∧ s.pools true = some pool ∧
      pool.config.bufferSize = 64 ∧ item.buffer.data.len = 8 ∧
      ¬ Serves pool.config item.buffer :=
  ⟨_, _, _, rfl, rfl, rfl, rfl, rfl, fun serves => absurd serves.1 (by decide)⟩

end

end Secbuf.PoolSizes
