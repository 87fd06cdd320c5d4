import Secbuf.FastSteps

/-! What every step of the lock-free pool keeps, whatever is known about its buffers: the rules
say what holds of a buffer in each place, and a step moves buffers from one place to another. -/

namespace Secbuf.FastPool
open Calls Storage BufferCore BufferScript Custody

def Pc.storing {ι : Type} : Pc ι → Option Item
  | .dropStore _ item => some item
  | _ => none

section
variable {ι θ : Type} {rules : Rules} {s : World ι θ}

/-- A buffer taken out of the cache must be ready for the pool it is taken for. -/
def TakenFromCache (rules : Rules) (s : World ι θ) (t : θ) (p : ι) : Prop :=
  ∀ item pool, (s.caches t).getLast? = some item → s.pools p = some pool →
    rules.ready pool.config item.buffer

/-- What the rules ask of a step in the state it is taken in. -/
def allows (rules : Rules) (s : World ι θ) : Action ι θ → Prop
  | .drop _ i => ∀ handle pool, s.held[i]? = some handle → s.pools handle.pool = some pool →
    rules.returns pool.config handle.item.buffer
  | .use i op => ∀ handle, s.held[i]? = some handle → rules.uses handle.item.buffer op
  | .replace i b => ∀ handle pool, s.held[i]? = some handle → s.pools handle.pool = some pool →
    rules.owned pool.config b
  | .advance t =>
    match s.threads t with
    | .acquireCache p => TakenFromCache rules s t p
    | .flush p => (∀ pool, s.pools p = some pool → pool.hasRoom) → TakenFromCache rules s t p
    | _ => True
  | _ => True

def ReadyFor (rules : Rules) (s : World ι θ) (p : ι) (b : Buffer) : Prop :=
  ∃ pool, s.pools p = some pool ∧ rules.ready pool.config b

/-- Queued and carried buffers are ready, cached ones stashed, held ones owned. -/
structure Kept (rules : Rules) (s : World ι θ) : Prop where
  idle : ∀ p pool, s.pools p = some pool →
    ∀ item ∈ pool.globalPool.items, rules.ready pool.config item.buffer
  cached : ∀ t, ∀ item ∈ s.caches t, rules.stashed item.buffer
  carried : ∀ t p item, (s.threads t).carries = some (p, item) → ReadyFor rules s p item.buffer
  stored : ∀ t item, (s.threads t).storing = some item → rules.stashed item.buffer
  held : ∀ handle ∈ s.held, ∃ pool, s.pools handle.pool = some pool ∧
    rules.owned pool.config handle.item.buffer

theorem kept_empty (rules : Rules) : Kept rules (World.empty : World ι θ) :=
  ⟨nofun, nofun, nofun, nofun, nofun⟩

theorem allows_advance (kept : Kept rules s)
    (ready : ∀ config b, rules.stashed b → rules.ready config b) (t : θ) :
    allows rules s (.advance t) := by
  have taken : ∀ p, TakenFromCache rules s t p := fun p item pool top _ =>
    ready pool.config _ (kept.cached t item (List.mem_of_getLast? top))
  simp only [allows]
  cases s.threads t with
  | acquireCache p => exact taken p
  | flush p => exact fun _ => taken p
  | _ => trivial

theorem Kept.fewer (kept : Kept rules s) {held : List (FastHandle ι)} (fewer : held ⊆ s.held) :
    Kept rules { s with held := held } :=
  ⟨kept.idle, kept.cached, kept.carried, kept.stored,
    fun handle member => kept.held handle (fewer member)⟩

theorem Kept.edit (kept : Kept rules s) {i : Nat} {handle : FastHandle ι}
    (here : s.held[i]? = some handle) {b : Buffer}
    (owned : ∀ pool, s.pools handle.pool = some pool →
      rules.owned pool.config handle.item.buffer → rules.owned pool.config b) :
    Kept rules { s with held := s.held.set i (handle.withBuffer b) } := by
  refine ⟨kept.idle, kept.cached, kept.carried, kept.stored, fun other member => ?_⟩
  rcases List.mem_or_eq_of_mem_set member with old | rfl
  · exact kept.held other old
  · obtain ⟨pool, found, before⟩ := kept.held handle (List.mem_of_getElem? here)
    exact ⟨pool, found, owned pool found before⟩

theorem Kept.destroy (kept : Kept rules s) (items : List Item) : Kept rules (s.destroy items) :=
  ⟨kept.idle, kept.cached, kept.carried, kept.stored, kept.held⟩

theorem Kept.created (kept : Kept rules s) (n : Nat) : Kept rules { s with created := n } :=
  ⟨kept.idle, kept.cached, kept.carried, kept.stored, kept.held⟩

theorem ReadyFor.at {p : ι} {pool : FastBufferPool} {b : Buffer} (ready : ReadyFor rules s p b)
    (here : s.pools p = some pool) : rules.ready pool.config b := by
  obtain ⟨other, found, holds⟩ := ready
  rw [here] at found
  cases found
  exact holds

theorem Kept.setCache [DecidableEq θ] (kept : Kept rules s) (t : θ) (cache : List Item)
    (stashed : ∀ item ∈ cache, rules.stashed item.buffer) : Kept rules (s.setCache t cache) := by
  refine ⟨kept.idle, ?_, kept.carried, kept.stored, kept.held⟩
  intro other item member
  simp only [World.setCache, Function.update_apply] at member
  split_ifs at member
  · exact stashed item member
  · exact kept.cached other item member

theorem Kept.popCache [DecidableEq θ] (kept : Kept rules s) (t : θ) :
    Kept rules (s.setCache t (s.caches t).dropLast) :=
  kept.setCache t _ fun other member => kept.cached t other (List.dropLast_subset _ member)

theorem Kept.setPc [DecidableEq θ] (kept : Kept rules s) (t : θ) {pc : Pc ι}
    (carried : ∀ p item, pc.carries = some (p, item) → ReadyFor rules s p item.buffer)
    (stored : ∀ item, pc.storing = some item → rules.stashed item.buffer) :
    Kept rules (s.setPc t pc) := by
  refine ⟨kept.idle, kept.cached, ?_, ?_, kept.held⟩
  · intro other p item found
    simp only [World.setPc, Function.update_apply] at found
    split_ifs at found
    · exact carried p item found
    · exact kept.carried other p item found
  · intro other item found
    simp only [World.setPc, Function.update_apply] at found
    split_ifs at found
    · exact stored item found
    · exact kept.stored other item found

theorem Kept.setPcEmpty [DecidableEq θ] (kept : Kept rules s) (t : θ) {pc : Pc ι}
    (carries : pc.carries = none) (storing : pc.storing = none) : Kept rules (s.setPc t pc) :=
  kept.setPc t (by rw [carries]; nofun) (by rw [storing]; nofun)

theorem Kept.setPcCarrying [DecidableEq θ] (kept : Kept rules s) (t : θ) {pc : Pc ι} {p : ι}
    {item : Item} (carries : pc.carries = some (p, item)) (storing : pc.storing = none)
    (ready : ReadyFor rules s p item.buffer) : Kept rules (s.setPc t pc) := by
  refine kept.setPc t ?_ (by rw [storing]; nofun)
  intro q other found
  rw [carries] at found
  cases found
  exact ready

variable [DecidableEq ι]

theorem pools_setPool {p q : ι} {pool after other : FastBufferPool} (here : s.pools p = some pool)
    (config : after.config = pool.config) (found : s.pools q = some other) :
    ∃ new, (s.setPool p after).pools q = some new ∧ new.config = other.config := by
  simp only [World.setPool, Function.update_apply]
  split_ifs with same
  · rw [same, here] at found
    cases found
    exact ⟨after, rfl, config⟩
  · exact ⟨other, found, rfl⟩

theorem ReadyFor.setPool {p q : ι} {b : Buffer} {pool : FastBufferPool}
    (ready : ReadyFor rules s q b) (here : s.pools p = some pool) (after : FastBufferPool)
    (config : after.config = pool.config) : ReadyFor rules (s.setPool p after) q b := by
  obtain ⟨other, found, holds⟩ := ready
  obtain ⟨new, there, same⟩ := pools_setPool here config found
  exact ⟨new, there, same ▸ holds⟩

theorem Kept.setPool (kept : Kept rules s) {p : ι} {pool after : FastBufferPool}
    (here : s.pools p = some pool) (config : after.config = pool.config)
    (idle : ∀ item ∈ after.globalPool.items, item ∈ pool.globalPool.items ∨
      rules.ready pool.config item.buffer) : Kept rules (s.setPool p after) := by
  refine ⟨?_, kept.cached, ?_, kept.stored, ?_⟩
  · intro q other found item member
    simp only [World.setPool, Function.update_apply] at found
    split_ifs at found with same
    · cases found
      rw [config]
      rcases idle item member with old | ready
      · exact kept.idle p pool here item old
      · exact ready
    · exact kept.idle q other found item member
  · intro t q item found
    exact (kept.carried t q item found).setPool here after config
  · intro handle member
    obtain ⟨other, found, owned⟩ := kept.held handle member
    obtain ⟨new, there, same⟩ := pools_setPool here config found
    exact ⟨new, there, same ▸ owned⟩

theorem Kept.count (kept : Kept rules s) {p : ι} {pool : FastBufferPool}
    (here : s.pools p = some pool) (after : FastBufferPool) (config : after.config = pool.config)
    (items : after.globalPool.items = pool.globalPool.items) : Kept rules (s.setPool p after) :=
  kept.setPool here config fun _ member => Or.inl (items ▸ member)

theorem Kept.enqueue (kept : Kept rules s) {p : ι} {pool : FastBufferPool} {item : Item}
    (here : s.pools p = some pool) (ready : rules.ready pool.config item.buffer) :
    Kept rules (s.setPool p (pool.enqueue item)) := by
  refine kept.setPool here rfl fun other member => ?_
  rcases List.mem_append.mp member with old | last
  · exact Or.inl old
  · exact Or.inr (by rw [List.mem_singleton.mp last]; exact ready)

theorem Kept.dequeue (kept : Kept rules s) {p : ι} {pool : FastBufferPool} {item : Item}
    {rest : List Item} (here : s.pools p = some pool)
    (items : pool.globalPool.items = item :: rest) :
    Kept rules (s.setPool p (pool.dequeue rest)) ∧
      ReadyFor rules (s.setPool p (pool.dequeue rest)) p item.buffer := by
  have front : rules.ready pool.config item.buffer :=
    kept.idle p pool here item (by rw [items]; exact List.mem_cons_self)
  refine ⟨kept.setPool here rfl fun other member => Or.inl ?_, pool.dequeue rest, ?_, front⟩
  · rw [items]
    exact List.mem_cons_of_mem _ member
  · simp [World.setPool]

theorem Kept.newPool (kept : Kept rules s) {p : ι} {pool : FastBufferPool}
    (absent : s.pools p = none)
    (idle : ∀ item ∈ pool.globalPool.items, rules.ready pool.config item.buffer) :
    Kept rules (s.setPool p pool) := by
  have still : ∀ q other, s.pools q = some other → (s.setPool p pool).pools q = some other := by
    intro q other found
    have different : q ≠ p := by
      rintro rfl
      rw [absent] at found
      cases found
    simpa [World.setPool, Function.update_apply, different] using found
  refine ⟨?_, kept.cached, ?_, kept.stored, ?_⟩
  · intro q other found item member
    simp only [World.setPool, Function.update_apply] at found
    split_ifs at found
    · cases found
      exact idle item member
    · exact kept.idle q other found item member
  · intro t q item found
    obtain ⟨other, there, ready⟩ := kept.carried t q item found
    exact ⟨other, still q other there, ready⟩
  · intro handle member
    obtain ⟨other, there, owned⟩ := kept.held handle member
    exact ⟨other, still _ other there, owned⟩

theorem Kept.pushCarried (kept : Kept rules s) {t : θ} {p : ι} {item : Item} {pool : FastBufferPool}
    (carries : (s.threads t).carries = some (p, item)) (here : s.pools p = some pool) :
    Kept rules (s.setPool p (pool.enqueue item)) :=
  kept.enqueue here ((kept.carried t p item carries).at here)

variable [DecidableEq θ]

theorem Kept.counted (kept : Kept rules s) {t : θ} {pc : Pc ι} {p : ι} {pool after : FastBufferPool}
    (here : s.pools p = some pool) (config : after.config = pool.config)
    (items : after.globalPool.items = pool.globalPool.items) (carries : pc.carries = none)
    (storing : pc.storing = none) : Kept rules ((s.setPool p after).setPc t pc) :=
  (kept.count here after config items).setPcEmpty t carries storing

theorem kept_step (kept : Kept rules s) {action : Action ι θ} {u : World ι θ}
    (allowed : allows rules s action) (step : Step s action u) : Kept rules u := by
  cases step with
  | new absent made =>
    exact (kept.newPool absent fun item member =>
      rules.fresh (freshItems_mem made member)).created _
  | acquire idle alive here => exact kept.counted here rfl rfl rfl rfl
  | hit pc here top =>
    rename_i t p pool item
    simp only [allows, pc] at allowed
    have counted := kept.count here pool.countHit rfl rfl
    have ready : ReadyFor rules s p item.buffer := ⟨pool, here, allowed item pool top here⟩
    exact (counted.popCache t).setPcCarrying t rfl rfl (ready.setPool here _ rfl)
  | acquirePop pc here empty items =>
    obtain ⟨popped, ready⟩ := kept.dequeue here items
    exact popped.setPcCarrying _ rfl rfl ready
  | acquireMiss pc here empty items => exact kept.setPcEmpty _ rfl rfl
  | acquireCounted pc here =>
    rename_i t p pool item
    have ready := kept.carried t p item (by rw [pc]; rfl)
    exact (kept.count here pool.countDown rfl rfl).setPcCarrying t rfl rfl (ready.setPool here _ rfl)
  | allocated pc here made =>
    rename_i t p pool buffer
    have ready : ReadyFor rules s p buffer := ⟨pool, here, rules.fresh made⟩
    have moved := ready.setPool here pool.countAllocated rfl
    exact ((kept.count here pool.countAllocated rfl rfl).setPcCarrying t rfl rfl moved).created _
  | handed pc =>
    rename_i t p item
    have done : Kept rules (s.setPc t .idle) := kept.setPcEmpty t rfl rfl
    refine ⟨done.idle, done.cached, done.carried, done.stored, fun handle member => ?_⟩
    rcases List.mem_cons.mp member with rfl | old
    · obtain ⟨pool, here, ready⟩ := kept.carried t p item (by rw [pc]; rfl)
      exact ⟨pool, here, rules.handed ready⟩
    · exact kept.held handle old
  | drop idle found here =>
    rename_i t i handle pool
    obtain ⟨other, same, owned⟩ := kept.held handle (List.mem_of_getElem? found)
    rw [here] at same
    cases same
    have burned := rules.burned owned (allowed handle pool found here)
    have counted := kept.count here pool.countReturned rfl rfl
    refine (counted.setPc t ?_ ?_).fewer List.eraseIdx_subset
    · intro q item carries
      cases carries
      exact ReadyFor.setPool ⟨pool, here, burned.1⟩ here _ rfl
    · intro item storing
      cases storing
      exact burned.2
  | stored pc space =>
    rename_i t p item
    have stashed := kept.stored t item (by rw [pc]; rfl)
    refine (kept.setCache t _ fun other member => ?_).setPcEmpty t rfl rfl
    rcases List.mem_append.mp member with old | last
    · exact kept.cached t other old
    · rw [List.mem_singleton.mp last]
      exact stashed
  | dropAdmitted pc here full room =>
    rename_i t p pool item
    exact kept.setPcCarrying t rfl rfl (kept.carried t p item (by rw [pc]; rfl))
  | dropRefused pc here full noRoom => exact (kept.setPcEmpty _ rfl rfl).destroy _
  | dropPushed pc here => exact (kept.pushCarried (by rw [pc]; rfl) here).setPcEmpty _ rfl rfl
  | dropCounted pc here => exact kept.counted here rfl rfl rfl rfl
  | dropNow found => exact (kept.fewer List.eraseIdx_subset).destroy _
  | leak found =>
    rename_i i handle
    have fewer := kept.fewer (List.eraseIdx_subset (k := i))
    exact ⟨fewer.idle, fewer.cached, fewer.carried, fewer.stored, fewer.held⟩
  | warm idle here => exact kept.setPcEmpty _ rfl rfl
  | warmEnd pc => exact kept.setPcEmpty _ rfl rfl
  | warmPushed pc here made =>
    exact ((kept.enqueue here (rules.fresh made)).setPcEmpty _ rfl rfl).created _
  | warmCounted pc here => exact kept.counted here rfl rfl rfl rfl
  | clear idle here => exact kept.setPcEmpty _ rfl rfl
  | clearPop pc here items =>
    obtain ⟨popped, ready⟩ := kept.dequeue here items
    exact popped.setPcCarrying _ rfl rfl ready
  | clearEnd pc here items => exact kept.setPcEmpty _ rfl rfl
  | clearCounted pc here =>
    rename_i t p pool item
    have counted : Kept rules ((s.setPool p pool.countDown).setPc t (.clear p)) :=
      kept.counted here rfl rfl rfl rfl
    exact counted.destroy _
  | flush idle alive here => exact kept.setPcEmpty _ rfl rfl
  | flushEnd pc empty => exact kept.setPcEmpty _ rfl rfl
  | flushAdmitted pc here room top =>
    rename_i t p pool item
    simp only [allows, pc] at allowed
    have open' : ∀ other, s.pools p = some other → other.hasRoom = true := by
      intro other found
      rw [here] at found
      cases found
      exact room
    have ready : ReadyFor rules s p item.buffer := ⟨pool, here, allowed open' item pool top here⟩
    exact (kept.popCache t).setPcCarrying t rfl rfl ready
  | flushRefused pc here noRoom top => exact (kept.popCache _).destroy _
  | flushPushed pc here => exact (kept.pushCarried (by rw [pc]; rfl) here).setPcEmpty _ rfl rfl
  | flushCounted pc here => exact kept.counted here rfl rfl rfl rfl
  | exit idle =>
    rename_i t
    have emptied : Kept rules (s.setCache t []) := by
      refine kept.setCache t [] fun item member => ?_
      cases member
    exact ⟨emptied.idle, emptied.cached, emptied.carried, emptied.stored, emptied.held⟩
  | use found stepped =>
    exact kept.edit found fun _ _ owned => rules.used owned (allowed _ found) stepped
  | replace found => exact kept.edit found fun pool here _ => allowed _ pool found here

theorem kept_run {step : World ι θ → Action ι θ → World ι θ → Prop} {u : World ι θ}
    (run : Reaches step World.empty u)
    (allowed : ∀ s action t, Kept rules s → step s action t →
      allows rules s action ∧ Taken s action t) : Kept rules u := by
  refine run.keeps (kept_empty rules) fun s action t kept taken => ?_
  obtain ⟨asked, next⟩ := allowed s action t kept taken
  exact kept_step kept asked (step_of_taken next)

end

end Secbuf.FastPool
