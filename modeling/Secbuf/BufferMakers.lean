import Secbuf.FastPanics

/-! Who made a buffer of the lock-free pools. A record beside the system names the pool that made
each buffer; where holders leave the length of their buffers alone, every buffer in a queue, a
cache, a call or a handle is as long as the pool that made it makes them. -/

namespace Secbuf.BufferMakers
open Calls Storage BufferCore BufferScript Custody FastPool

/-- `P` holds of every buffer in a queue, a cache, a call or a handle. -/
structure Everywhere {ι θ : Type} (P : Item → Prop) (s : World ι θ) : Prop where
  queued : ∀ p pool, s.pools p = some pool → ∀ item ∈ pool.globalPool.items, P item
  cached : ∀ t, ∀ item ∈ s.caches t, P item
  carried : ∀ t p item, (s.threads t).carries = some (p, item) → P item
  held : ∀ handle ∈ s.held, P handle.item

section
variable {ι θ : Type} {P : Item → Prop} {s : World ι θ}

theorem everywhere_empty : Everywhere P (World.empty : World ι θ) :=
  ⟨nofun, nofun, nofun, nofun⟩

theorem Everywhere.mono {Q : Item → Prop} (all : Everywhere P s) (wider : ∀ item, P item → Q item) :
    Everywhere Q s :=
  ⟨fun p pool here item member => wider item (all.queued p pool here item member),
    fun t item member => wider item (all.cached t item member),
    fun t p item carries => wider item (all.carried t p item carries),
    fun handle member => wider handle.item (all.held handle member)⟩

theorem Everywhere.destroy (all : Everywhere P s) (items : List Item) :
    Everywhere P (s.destroy items) := ⟨all.queued, all.cached, all.carried, all.held⟩

theorem Everywhere.created (all : Everywhere P s) (n : Nat) :
    Everywhere P { s with created := n } := ⟨all.queued, all.cached, all.carried, all.held⟩

theorem Everywhere.holding (all : Everywhere P s) {held : List (FastHandle ι)}
    (each : ∀ handle ∈ held, P handle.item) : Everywhere P { s with held := held } :=
  ⟨all.queued, all.cached, all.carried, each⟩

theorem Everywhere.fewer (all : Everywhere P s) {held : List (FastHandle ι)} (fewer : held ⊆ s.held) :
    Everywhere P { s with held := held } :=
  all.holding fun handle member => all.held handle (fewer member)

theorem Everywhere.edit (all : Everywhere P s) {i : Nat} {handle : FastHandle ι}
    (found : s.held[i]? = some handle) {b : Buffer}
    (after : P handle.item → P { handle.item with buffer := b }) :
    Everywhere P { s with held := s.held.set i (handle.withBuffer b) } := by
  apply all.holding
  intro other member
  rcases List.mem_or_eq_of_mem_set member with old | rfl
  · exact all.held other old
  · exact after (all.held handle (List.mem_of_getElem? found))

theorem Everywhere.setPool [DecidableEq ι] (all : Everywhere P s) (p : ι) {after : FastBufferPool}
    (queue : ∀ item ∈ after.globalPool.items, P item) : Everywhere P (s.setPool p after) := by
  refine ⟨?_, all.cached, all.carried, all.held⟩
  intro q other found item member
  simp only [World.setPool, Function.update_apply] at found
  split_ifs at found
  · cases found
    exact queue item member
  · exact all.queued q other found item member

theorem Everywhere.count [DecidableEq ι] (all : Everywhere P s) {p : ι}
    {pool : FastBufferPool} (here : s.pools p = some pool) (after : FastBufferPool)
    (items : after.globalPool.items = pool.globalPool.items) : Everywhere P (s.setPool p after) :=
  all.setPool p fun item member => all.queued p pool here item (items ▸ member)

theorem Everywhere.enqueue [DecidableEq ι] (all : Everywhere P s) {p : ι} {pool : FastBufferPool}
    {item : Item} (here : s.pools p = some pool) (last : P item) :
    Everywhere P (s.setPool p (pool.enqueue item)) := by
  apply all.setPool p
  intro other member
  rcases List.mem_append.mp member with old | added
  · exact all.queued p pool here other old
  · rw [List.mem_singleton.mp added]
    exact last

theorem Everywhere.dequeue [DecidableEq ι] (all : Everywhere P s) {p : ι} {pool : FastBufferPool}
    {item : Item} {rest : List Item} (here : s.pools p = some pool)
    (items : pool.globalPool.items = item :: rest) :
    P item ∧ Everywhere P (s.setPool p (pool.dequeue rest)) := by
  have queue := all.queued p pool here
  rw [items] at queue
  exact ⟨queue item List.mem_cons_self,
    all.setPool p fun other member => queue other (List.mem_cons_of_mem _ member)⟩

variable [DecidableEq θ]

theorem Everywhere.setCache (all : Everywhere P s) (t : θ) {cache : List Item}
    (each : ∀ item ∈ cache, P item) : Everywhere P (s.setCache t cache) := by
  refine ⟨all.queued, ?_, all.carried, all.held⟩
  intro other item member
  simp only [World.setCache, Function.update_apply] at member
  split_ifs at member
  · exact each item member
  · exact all.cached other item member

theorem Everywhere.popCache (all : Everywhere P s) (t : θ) :
    Everywhere P (s.setCache t (s.caches t).dropLast) :=
  all.setCache t fun item member => all.cached t item (List.dropLast_subset _ member)

theorem Everywhere.setPc (all : Everywhere P s) (t : θ) {pc : Pc ι}
    (carried : ∀ p item, pc.carries = some (p, item) → P item) : Everywhere P (s.setPc t pc) := by
  refine ⟨all.queued, all.cached, ?_, all.held⟩
  intro other p item found
  simp only [World.setPc, Function.update_apply] at found
  split_ifs at found
  · exact carried p item found
  · exact all.carried other p item found

theorem Everywhere.setPcEmpty (all : Everywhere P s) (t : θ) {pc : Pc ι} (carries : pc.carries = none) :
    Everywhere P (s.setPc t pc) := by
  apply all.setPc t
  intro p item found
  rw [carries] at found
  cases found

theorem Everywhere.setPcCarrying (all : Everywhere P s) (t : θ) {pc : Pc ι} {p : ι} {item : Item}
    (carries : pc.carries = some (p, item)) (holds : P item) : Everywhere P (s.setPc t pc) := by
  apply all.setPc t
  intro q other found
  rw [carries] at found
  cases found
  exact holds

omit [DecidableEq θ] in
theorem Everywhere.carrying (all : Everywhere P s) {t : θ} {pc : Pc ι} {p : ι} {item : Item}
    (stands : s.threads t = pc) (carries : pc.carries = some (p, item)) : P item :=
  all.carried t p item (by rw [stands]; exact carries)

theorem Everywhere.counted [DecidableEq ι] (all : Everywhere P s) {t : θ} {pc : Pc ι} {p : ι}
    {pool after : FastBufferPool} (here : s.pools p = some pool)
    (items : after.globalPool.items = pool.globalPool.items) (carries : pc.carries = none) :
    Everywhere P ((s.setPool p after).setPc t pc) :=
  (all.count here after items).setPcEmpty t carries

end

theorem freshItems_serial {size count serial : Nat} {items : List Item}
    (done : freshItems size count serial = .ok items) {item : Item} (member : item ∈ items) :
    serial ≤ item.serial ∧ item.serial < serial + count := by
  induction count generalizing serial items with
  | zero =>
    cases done
    cases member
  | succ count ih =>
    obtain ⟨buffer, rest, -, others, rfl⟩ := freshItems_cases done
    rcases List.mem_cons.mp member with rfl | later
    · exact ⟨le_rfl, Nat.lt_add_of_pos_right (Nat.succ_pos count)⟩
    · have bounds := ih others later
      omega

section
variable {ι θ : Type}

/-- The pool that makes the buffers a step makes. -/
def maker? (s : World ι θ) : FastPool.Action ι θ → Option ι
  | .new p _ => some p
  | .advance t => (s.threads t).pool?
  | _ => none

variable [DecidableEq ι] [DecidableEq θ] {P : Item → Prop} {s u : World ι θ}
  {action : FastPool.Action ι θ}

def MadeBy (s : World ι θ) (action : FastPool.Action ι θ) (u : World ι θ) (item : Item) : Prop :=
  s.created ≤ item.serial ∧ item.serial < u.created ∧
    ∃ p pool, maker? s action = some p ∧ u.pools p = some pool ∧
      Buffer.new pool.config.bufferSize = .ok item.buffer

/-- What holds of every buffer holds of them all after a step, if it holds of those the step makes
and outlives what the step does to one: nothing, a burn or a use by its holder. -/
theorem everywhere_step (all : Everywhere P s) (step : Step s action u)
    (fresh : ∀ item, MadeBy s action u item → P item)
    (burned : ∀ item, P item → P { item with buffer := item.buffer.burn })
    (used : ∀ i op, action = .use i op → ∀ item b, P item → Stepped item.buffer op b →
      P { item with buffer := b })
    (replaced : ∀ i b, action = .replace i b → ∀ item, P item → P { item with buffer := b }) :
    Everywhere P u := by
  cases step with
  | new absent made =>
    rename_i p config items
    apply Everywhere.created
    apply all.setPool p
    intro item member
    obtain ⟨first, last⟩ := freshItems_serial made member
    exact fresh item ⟨first, last, p, _, rfl, Function.update_self .., freshItems_mem made member⟩
  | acquire idle alive here => exact all.counted here rfl rfl
  | hit pc here top =>
    rename_i t p pool item
    have popped := (all.count here pool.countHit rfl).popCache t
    exact popped.setPcCarrying t rfl (all.cached t item (List.mem_of_getLast? top))
  | acquirePop pc here empty items =>
    obtain ⟨front, popped⟩ := all.dequeue here items
    exact popped.setPcCarrying _ rfl front
  | acquireMiss pc here empty items => exact all.setPcEmpty _ rfl
  | acquireCounted pc here =>
    rename_i t p pool item
    exact (all.count here pool.countDown rfl).setPcCarrying t rfl (all.carrying pc rfl)
  | allocated pc here made =>
    rename_i t p pool buffer
    apply Everywhere.created
    apply (all.count here pool.countAllocated rfl).setPcCarrying t rfl
    refine fresh ⟨s.created, buffer⟩ ⟨le_rfl, Nat.lt_succ_self _, p, pool.countAllocated, ?_,
      Function.update_self .., made⟩
    rw [maker?, pc]
    rfl
  | handed pc =>
    apply (all.setPcEmpty _ rfl).holding
    intro handle member
    rcases List.mem_cons.mp member with rfl | old
    · exact all.carrying pc rfl
    · exact all.held handle old
  | drop idle found here =>
    rename_i t i handle pool
    have dropped := burned handle.item (all.held handle (List.mem_of_getElem? found))
    exact ((all.count here pool.countReturned rfl).setPcCarrying t rfl dropped).fewer
      List.eraseIdx_subset
  | stored pc space =>
    rename_i t p item
    apply (all.setCache t _).setPcEmpty t rfl
    intro other member
    rcases List.mem_append.mp member with old | last
    · exact all.cached t other old
    · rw [List.mem_singleton.mp last]
      exact all.carrying pc rfl
  | dropAdmitted pc here full room => exact all.setPcCarrying _ rfl (all.carrying pc rfl)
  | dropRefused pc here full noRoom => exact (all.setPcEmpty _ rfl).destroy _
  | dropPushed pc here | flushPushed pc here =>
    exact (all.enqueue here (all.carrying pc rfl)).setPcEmpty _ rfl
  | dropCounted pc here | warmCounted pc here | flushCounted pc here =>
    exact all.counted here rfl rfl
  | dropNow found => exact (all.fewer List.eraseIdx_subset).destroy _
  | leak found =>
    exact ⟨all.queued, all.cached, all.carried,
      fun handle member => all.held handle (List.eraseIdx_subset member)⟩
  | warm idle here | clear idle here | flush idle alive here => exact all.setPcEmpty _ rfl
  | warmEnd pc | clearEnd pc here items | flushEnd pc empty => exact all.setPcEmpty _ rfl
  | warmPushed pc here made =>
    rename_i t p pool left buffer
    apply Everywhere.created
    apply (all.enqueue here _).setPcEmpty t rfl
    refine fresh ⟨s.created, buffer⟩ ⟨le_rfl, Nat.lt_succ_self _, p, _, ?_,
      Function.update_self .., made⟩
    rw [maker?, pc]
    rfl
  | clearPop pc here items =>
    obtain ⟨front, popped⟩ := all.dequeue here items
    exact popped.setPcCarrying _ rfl front
  | clearCounted pc here =>
    rename_i t p pool item
    have counted : Everywhere P ((s.setPool p pool.countDown).setPc t (.clear p)) :=
      all.counted here rfl rfl
    exact counted.destroy _
  | flushAdmitted pc here room top =>
    rename_i t p pool item
    exact (all.popCache t).setPcCarrying t rfl (all.cached t item (List.mem_of_getLast? top))
  | flushRefused pc here noRoom top => exact (all.popCache _).destroy _
  | exit idle =>
    rename_i t
    have emptied : Everywhere P (s.setCache t []) := by
      apply all.setCache t
      intro item member
      cases member
    exact ⟨emptied.queued, emptied.cached, emptied.carried, emptied.held⟩
  | use found stepped => exact all.edit found fun before => used _ _ rfl _ _ before stepped
  | replace found => exact all.edit found (replaced _ _ rfl _)

/-! The record. -/

/-- The system, and for each buffer made so far the pool that made it. -/
structure Recorded (ι θ : Type) where
  world : World ι θ
  maker : Nat → Option ι

namespace Recorded

def empty : Recorded ι θ := ⟨World.empty, fun _ => none⟩

def follow (r : Recorded ι θ) (action : FastPool.Action ι θ) (u : World ι θ) : Recorded ι θ where
  world := u
  maker serial :=
    if r.world.created ≤ serial ∧ serial < u.created then maker? r.world action else r.maker serial

def next (r : Recorded ι θ) (action : FastPool.Action ι θ) : Option (Recorded ι θ) :=
  (FastPool.next r.world action).map (r.follow action)

def Taken (r : Recorded ι θ) (action : FastPool.Action ι θ) (after : Recorded ι θ) : Prop :=
  r.next action = some after

variable {r after : Recorded ι θ}

theorem taken_world (taken : r.Taken action after) : FastPool.Taken r.world action after.world := by
  obtain ⟨u, went, rfl⟩ := Option.map_eq_some_iff.mp taken
  exact went

theorem maker_new (taken : r.Taken action after) {serial : Nat} (first : r.world.created ≤ serial)
    (last : serial < after.world.created) : after.maker serial = maker? r.world action := by
  obtain ⟨u, went, rfl⟩ := Option.map_eq_some_iff.mp taken
  exact if_pos ⟨first, last⟩

theorem maker_old (taken : r.Taken action after) {serial : Nat} (old : serial < r.world.created) :
    after.maker serial = r.maker serial := by
  obtain ⟨u, went, rfl⟩ := Option.map_eq_some_iff.mp taken
  exact if_neg fun new => absurd old (not_lt.mpr new.1)

theorem world_run {allowed : Recorded ι θ → FastPool.Action ι θ → Prop}
    (run : Reaches (Guarded allowed Taken) empty r) : Reaches FastPool.Taken World.empty r.world := by
  induction run with
  | refl => exact .refl
  | tail _ move ih =>
    obtain ⟨action, taken⟩ := move
    exact ih.tail ⟨action, taken_world taken.2⟩

/-- Keeping the record takes no step away. -/
theorem of_run {allowed : World ι θ → FastPool.Action ι θ → Prop} {s : World ι θ}
    (run : Reaches (Guarded allowed FastPool.Taken) World.empty s) :
    ∃ r : Recorded ι θ, r.world = s ∧
      Reaches (Guarded (fun r action => allowed r.world action) Taken) empty r := by
  induction run with
  | refl => exact ⟨empty, rfl, .refl⟩
  | tail _ move ih =>
    obtain ⟨r, rfl, recorded⟩ := ih
    obtain ⟨action, may, went⟩ := move
    exact ⟨r.follow action _, rfl,
      recorded.tail ⟨action, may, Option.map_eq_some_iff.mpr ⟨_, went, rfl⟩⟩⟩

end Recorded

/-! The length of a buffer is that of its maker. -/

def KeepsLength : FastPool.Action ι θ → Prop
  | .use _ op => ∀ b t, Valid b → Stepped b op t → t.data.len = b.data.len
  | .replace _ _ => False
  | _ => True

structure AsMade (r : Recorded ι θ) (item : Item) : Prop where
  valid : Valid item.buffer
  numbered : item.serial < r.world.created
  size : ∃ p config, r.maker item.serial = some p ∧ Configured p config r.world ∧
    item.buffer.data.len = config.bufferSize

theorem created_le (taken : FastPool.Taken s action u) : s.created ≤ u.created := by
  cases step_of_taken taken with
  | new | allocated | warmPushed => exact Nat.le_add_right _ _
  | _ => exact le_rfl

theorem asMade_later {r after : Recorded ι θ} {item : Item} (made : AsMade r item)
    (taken : r.Taken action after) : AsMade after item := by
  obtain ⟨p, config, maker, there, size⟩ := made.size
  refine ⟨made.valid, ?_, p, config, ?_, ?_, size⟩
  · exact made.numbered.trans_le (created_le (Recorded.taken_world taken))
  · rw [Recorded.maker_old taken made.numbered]
    exact maker
  · exact configured_taken there (Recorded.taken_world taken)

theorem new_len {size : Nat} {b : Buffer} (made : Buffer.new size = .ok b) :
    Valid b ∧ b.data.len = size := by
  obtain ⟨-, bytes, -, -, cursor, length⟩ := Buffer.new_cases made
  refine ⟨⟨by omega, by omega⟩, ?_⟩
  rw [ByteVec.len, bytes, ByteVec.zeros_length]

theorem asMade_step {r after : Recorded ι θ} (all : Everywhere (AsMade r) r.world)
    (keeps : KeepsLength action) (taken : r.Taken action after) :
    Everywhere (AsMade after) after.world := by
  have later := all.mono fun item made => asMade_later made taken
  apply everywhere_step later (step_of_taken (Recorded.taken_world taken))
  · rintro item ⟨first, last, p, pool, maker, here, made⟩
    obtain ⟨valid, size⟩ := new_len made
    refine ⟨valid, last, p, pool.config, ?_, ⟨pool, here, rfl⟩, size⟩
    rw [Recorded.maker_new taken first last]
    exact maker
  · intro item made
    obtain ⟨p, config, maker, there, size⟩ := made.size
    refine ⟨⟨le_rfl, Nat.zero_le _⟩, made.numbered, p, config, maker, there, ?_⟩
    rw [← size]
    exact ByteVec.zeros_length _
  · rintro i op rfl item b made stepped
    obtain ⟨p, config, maker, there, size⟩ := made.size
    have same := keeps item.buffer b made.valid stepped
    exact ⟨(step_lands made.valid op b stepped).1, made.numbered, p, config, maker, there,
      same.trans size⟩
  · rintro i b rfl
    exact keeps.elim

theorem asMade_run {r : Recorded ι θ}
    (run : Reaches (Guarded (fun _ action => KeepsLength action) Recorded.Taken)
      Recorded.empty r) : Everywhere (AsMade r) r.world := by
  apply run.keeps everywhere_empty
  intro r action after all taken
  exact asMade_step all taken.1 taken.2

end

end Secbuf.BufferMakers
