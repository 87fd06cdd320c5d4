import Secbuf.FastQueue

/-! Where the buffers of the lock-free pools are. The number of times a buffer is found, over all
queues, caches, calls and handles and among the buffers leaked and destroyed, is the same before
and after every step, but for the buffers that the step creates. -/

namespace Secbuf.FastLedger
open Calls Storage BufferCore BufferScript Custody Tally FastPool

def numbered (n : Nat) (item : Item) : Bool := item.serial = n

def queued (n : Nat) : Option FastBufferPool → Nat
  | some pool => pool.globalPool.items.countP (numbered n)
  | none => 0

def cached (n : Nat) (cache : List Item) : Nat := cache.countP (numbered n)

def carried {ι : Type} (n : Nat) (pc : Pc ι) : Nat :=
  match pc.carries with
  | some (_, item) => cached n [item]
  | none => 0

def heldCount {ι : Type} (n : Nat) (held : List (FastHandle ι)) : Nat :=
  held.countP fun handle => numbered n handle.item

section
variable {ι θ : Type}

noncomputable def total (n : Nat) (s : World ι θ) : Nat :=
  tally (queued n) s.pools + tally (cached n) s.caches + tally (carried n) s.threads +
    heldCount n s.held + cached n s.leaked + cached n s.destroyed

/-- Only finitely many pools are made, caches filled and threads inside a call. -/
structure Few (s : World ι θ) : Prop where
  pools : Mostly none s.pools
  caches : Mostly [] s.caches
  threads : Mostly .idle s.threads

theorem few_empty : Few (World.empty : World ι θ) := ⟨mostly_const, mostly_const, mostly_const⟩

variable [DecidableEq ι] [DecidableEq θ] {s u : World ι θ} {action : Action ι θ}

theorem few_step (few : Few s) (step : Step s action u) : Few u := by
  obtain ⟨pools, caches, threads⟩ := few
  cases step with
  | new | acquire | acquirePop | acquireCounted | allocated | drop | dropPushed | dropCounted
    | warmPushed | warmCounted | clearPop | clearCounted | flushPushed | flushCounted =>
    first
      | exact ⟨pools.update _ _, caches, threads⟩
      | exact ⟨pools.update _ _, caches, threads.update _ _⟩
  | hit => exact ⟨pools.update _ _, caches.update _ _, threads.update _ _⟩
  | acquireMiss | handed | dropAdmitted | dropRefused | warm | warmEnd | clear | clearEnd | flush
    | flushEnd => exact ⟨pools, caches, threads.update _ _⟩
  | stored | flushAdmitted => exact ⟨pools, caches.update _ _, threads.update _ _⟩
  | flushRefused | exit => exact ⟨pools, caches.update _ _, threads⟩
  | dropNow | leak | use | replace => exact ⟨pools, caches, threads⟩

end

section
variable {ι θ : Type} [DecidableEq ι] [DecidableEq θ] {s : World ι θ} {n : Nat}

omit [DecidableEq θ] in
theorem total_setPool (pools : Mostly none s.pools) (n : Nat) (p : ι) (after : FastBufferPool) :
    total n (s.setPool p after) + queued n (s.pools p) = total n s + queued n (some after) := by
  have moved := tally_update (w := queued n) pools rfl p (some after)
  simp only [total, World.setPool] at moved ⊢
  omega

omit [DecidableEq θ] in
theorem Few.setPool (few : Few s) (p : ι) (after : FastBufferPool) : Few (s.setPool p after) :=
  ⟨few.pools.update _ _, few.caches, few.threads⟩

omit [DecidableEq θ] in
theorem total_recount (few : Few s) {p : ι} {pool after : FastBufferPool}
    (here : s.pools p = some pool) (items : after.globalPool.items = pool.globalPool.items) (n : Nat) :
    total n (s.setPool p after) = total n s := by
  have moved := total_setPool few.pools n p after
  have kept : queued n (some after) = queued n (some pool) := by rw [queued, queued, items]
  rw [here, kept] at moved
  exact Nat.add_right_cancel moved

omit [DecidableEq ι] in
theorem total_setCache (caches : Mostly [] s.caches) (n : Nat) (t : θ) (cache : List Item) :
    total n (s.setCache t cache) + cached n (s.caches t) = total n s + cached n cache := by
  have moved := tally_update (w := cached n) caches rfl t cache
  simp only [total, World.setCache] at moved ⊢
  omega

omit [DecidableEq ι] in
theorem total_setPc (threads : Mostly .idle s.threads) (n : Nat) (t : θ) (pc : Pc ι) :
    total n (s.setPc t pc) + carried n (s.threads t) = total n s + carried n pc := by
  have moved := tally_update (w := carried n) threads rfl t pc
  simp only [total, World.setPc] at moved ⊢
  omega

omit [DecidableEq ι] [DecidableEq θ] in
theorem total_destroy (s : World ι θ) (n : Nat) (items : List Item) :
    total n (s.destroy items) = total n s + cached n items := by
  simp only [total, World.destroy, cached, List.countP_append]
  omega

theorem total_go (few : Few s) {p : ι} {t : θ} {pool : FastBufferPool} (after : FastBufferPool)
    {before : Pc ι} (here : s.pools p = some pool) (stands : s.threads t = before) (n : Nat) (pc : Pc ι) :
    total n ((s.setPool p after).setPc t pc) + queued n (some pool) + carried n before =
      total n s + queued n (some after) + carried n pc := by
  have first := total_setPool few.pools n p after
  have second := total_setPc (s := s.setPool p after) few.threads n t pc
  rw [here] at first
  change _ + carried n (s.threads t) = _ at second
  rw [stands] at second
  omega

def made (n : Nat) (s : World ι θ) : Nat := if n < s.created then 1 else 0

omit [DecidableEq ι] [DecidableEq θ]

theorem cached_cons (n : Nat) (item : Item) (rest : List Item) :
    cached n (item :: rest) = cached n rest + cached n [item] := by
  simp [cached, List.countP_cons]

theorem cached_numbered (n serial : Nat) (buffer : Buffer) :
    cached n [⟨serial, buffer⟩] + (if n < serial then 1 else 0) = if n < serial + 1 then 1 else 0 := by
  have one : cached n [⟨serial, buffer⟩] = if serial = n then 1 else 0 := by
    simp [cached, numbered, List.countP_cons]
  rw [one]
  split_ifs <;> omega

theorem cached_append (n : Nat) (items : List Item) (item : Item) :
    cached n (items ++ [item]) = cached n items + cached n [item] := by
  simp [cached, List.countP_append]

theorem queued_enqueue (n : Nat) (pool : FastBufferPool) (item : Item) :
    queued n (some (pool.enqueue item)) = queued n (some pool) + cached n [item] :=
  cached_append n pool.globalPool.items item

theorem heldCount_cons (n : Nat) (handle : FastHandle ι) (held : List (FastHandle ι)) :
    heldCount n (handle :: held) = heldCount n held + cached n [handle.item] := by
  simp [heldCount, cached, List.countP_cons]

theorem cached_dropLast {items : List Item} {item : Item} (top : items.getLast? = some item)
    (n : Nat) : cached n items.dropLast + cached n [item] = cached n items := by
  rw [← cached_append, List.dropLast_append_getLast? item top]

theorem heldCount_eraseIdx {held : List (FastHandle ι)} {i : Nat} {handle : FastHandle ι}
    (found : held[i]? = some handle) (n : Nat) :
    heldCount n (held.eraseIdx i) + cached n [handle.item] = heldCount n held := by
  have erased := countP_eraseIdx (fun handle : FastHandle ι => numbered n handle.item) found
  simpa [heldCount, cached, List.countP_cons] using erased

theorem cached_fresh {size count serial : Nat} {items : List Item}
    (done : freshItems size count serial = .ok items) (n : Nat) :
    cached n items + (if n < serial then 1 else 0) = if n < serial + count then 1 else 0 := by
  induction count generalizing serial items with
  | zero =>
    cases done
    simp [cached]
  | succ count ih =>
    obtain ⟨buffer, rest, -, others, rfl⟩ := freshItems_cases done
    have later := ih others
    have one := cached_numbered n serial buffer
    rw [show serial + 1 + count = serial + (count + 1) by omega] at later
    rw [cached_cons]
    omega

variable {u : World ι θ} {action : Action ι θ} [DecidableEq ι] [DecidableEq θ]

omit [DecidableEq ι] [DecidableEq θ] in
theorem carried_some {pc : Pc ι} {p : ι} {item : Item} (held : pc.carries = some (p, item)) (n : Nat) :
    carried n pc = cached n [item] := by
  rw [carried, held]

omit [DecidableEq ι] [DecidableEq θ] in
theorem carried_none {pc : Pc ι} (empty : pc.carries = none) (n : Nat) : carried n pc = 0 := by
  rw [carried, empty]

omit [DecidableEq ι] [DecidableEq θ] in
theorem carried_congr {before pc : Pc ι} (same : pc.carries = before.carries) (n : Nat) :
    carried n pc = carried n before := by
  rw [carried, carried, same]

omit [DecidableEq ι] in
theorem total_stay (few : Few s) {t : θ} {before pc : Pc ι} (stands : s.threads t = before)
    (same : pc.carries = before.carries) (n : Nat) : total n (s.setPc t pc) = total n s := by
  have moved := total_setPc few.threads n t pc
  rw [stands, carried_congr same] at moved
  exact Nat.add_right_cancel moved

theorem total_count (few : Few s) {p : ι} {t : θ} {pool after : FastBufferPool} {before pc : Pc ι}
    (stands : s.threads t = before) (here : s.pools p = some pool)
    (items : after.globalPool.items = pool.globalPool.items) (same : pc.carries = before.carries)
    (n : Nat) : total n ((s.setPool p after).setPc t pc) = total n s := by
  calc
    total n ((s.setPool p after).setPc t pc) = total n (s.setPool p after) :=
      total_stay (few.setPool p after) stands same n
    _ = total n s := total_recount few here items n

omit [DecidableEq ι] in
theorem total_take (few : Few s) {t : θ} {p : ι} {before pc : Pc ι} {item : Item}
    (stands : s.threads t = before) (top : (s.caches t).getLast? = some item)
    (empty : before.carries = none) (held : pc.carries = some (p, item)) (n : Nat) :
    total n ((s.setCache t (s.caches t).dropLast).setPc t pc) = total n s := by
  have popped := total_setCache few.caches n t (s.caches t).dropLast
  have moved := total_setPc (s := s.setCache t (s.caches t).dropLast) few.threads n t pc
  have split := cached_dropLast top n
  change _ + carried n (s.threads t) = _ at moved
  rw [stands, carried_none empty, carried_some held] at moved
  omega

omit [DecidableEq ι] in
theorem total_stash (few : Few s) {t : θ} {p : ι} {before pc : Pc ι} {item : Item}
    (stands : s.threads t = before) (held : before.carries = some (p, item))
    (empty : pc.carries = none) (n : Nat) :
    total n ((s.setCache t (s.caches t ++ [item])).setPc t pc) = total n s := by
  have stashed := total_setCache few.caches n t (s.caches t ++ [item])
  have moved := total_setPc (s := s.setCache t (s.caches t ++ [item])) few.threads n t pc
  have one := cached_append n (s.caches t) item
  change _ + carried n (s.threads t) = _ at moved
  rw [stands, carried_some held, carried_none empty] at moved
  omega

omit [DecidableEq ι] in
theorem total_spend (few : Few s) {t : θ} {p : ι} {before pc : Pc ι} {item : Item}
    (stands : s.threads t = before) (held : before.carries = some (p, item))
    (empty : pc.carries = none) (n : Nat) : total n ((s.setPc t pc).destroy [item]) = total n s := by
  have moved := total_setPc few.threads n t pc
  have dropped := total_destroy (s.setPc t pc) n [item]
  rw [stands, carried_some held, carried_none empty] at moved
  omega

theorem total_push (few : Few s) {p : ι} {t : θ} {pool : FastBufferPool} {before pc : Pc ι}
    {item : Item} (stands : s.threads t = before) (here : s.pools p = some pool)
    (held : before.carries = some (p, item)) (empty : pc.carries = none) (n : Nat) :
    total n ((s.setPool p (pool.enqueue item)).setPc t pc) = total n s := by
  have moved := total_go few (pool.enqueue item) here stands n pc
  have pushed := queued_enqueue n pool item
  rw [carried_some held, carried_none empty] at moved
  omega

theorem total_pop (few : Few s) {p : ι} {t : θ} {pool : FastBufferPool} {before pc : Pc ι}
    {item : Item} {rest : List Item} (stands : s.threads t = before) (here : s.pools p = some pool)
    (items : pool.globalPool.items = item :: rest) (empty : before.carries = none)
    (held : pc.carries = some (p, item)) (n : Nat) :
    total n ((s.setPool p (pool.dequeue rest)).setPc t pc) = total n s := by
  have moved := total_go few (pool.dequeue rest) here stands n pc
  have popped : queued n (some pool) = queued n (some (pool.dequeue rest)) + cached n [item] := by
    rw [queued, items]
    exact cached_cons n item rest
  rw [carried_none empty, carried_some held] at moved
  omega

omit [DecidableEq ι] [DecidableEq θ] in
theorem total_held (s : World ι θ) (n : Nat) (held : List (FastHandle ι)) :
    total n { s with held := held } + heldCount n s.held = total n s + heldCount n held := by
  simp only [total]
  omega

omit [DecidableEq ι] [DecidableEq θ] in
theorem total_edit (s : World ι θ) {i : Nat} {handle : FastHandle ι}
    (found : s.held[i]? = some handle) (b : Buffer) (n : Nat) :
    total n { s with held := s.held.set i (handle.withBuffer b) } = total n s := by
  have moved := total_held s n (s.held.set i (handle.withBuffer b))
  have same : heldCount n (s.held.set i (handle.withBuffer b)) = heldCount n s.held :=
    countP_set_same (fun handle : FastHandle ι => numbered n handle.item) found rfl
  omega

omit [DecidableEq ι] [DecidableEq θ] in
/-- A step that makes no buffer. -/
theorem level (same : total n u = total n s) (created : u.created = s.created) :
    total n u + made n s = total n s + made n u := by
  rw [same, made, made, created]

/-- No step loses a buffer or makes a second one of it. -/
theorem total_step (few : Few s) (step : Step s action u) (n : Nat) :
    total n u + made n s = total n s + made n u := by
  cases step with
  | new absent fresh =>
    rename_i p config items
    have added := total_setPool few.pools n p
      ⟨⟨items, config.minPoolSize % 2 ^ 64⟩, config, ⟨0, 0, 0, 0⟩⟩
    have created := cached_fresh fresh n
    rw [absent] at added
    simp only [queued, cached] at added created
    simp only [total, made, World.setPool] at added ⊢
    omega
  | acquire idle alive here =>
    exact level (total_count few idle here (by rfl) (by rfl) n) rfl
  | hit pc here top =>
    rename_i t p pool item
    have taken : total n (((s.setPool p pool.countHit).setCache t (s.caches t).dropLast).setPc t
        (.acquireDone p item)) = total n (s.setPool p pool.countHit) :=
      total_take (few.setPool p pool.countHit) pc top (by rfl) (by rfl) n
    exact level (taken.trans (total_recount few here (by rfl) n)) rfl
  | acquirePop pc here empty items =>
    exact level (total_pop few pc here items (by rfl) (by rfl) n) rfl
  | acquireMiss pc here empty items =>
    exact level (total_stay few pc (by rfl) n) rfl
  | acquireCounted pc here =>
    exact level (total_count few pc here (by rfl) (by rfl) n) rfl
  | allocated pc here new =>
    rename_i t p pool buffer
    have moved := total_go few pool.countAllocated here pc n
      (.acquireDone p ⟨s.created, buffer⟩)
    have one := cached_numbered n s.created buffer
    change total n ((s.setPool p pool.countAllocated).setPc t _) + _ = _ + made n _
    change _ + queued n (some pool) + 0 = _ + queued n (some pool) + cached n _ at moved
    simp only [made]
    omega
  | handed pc =>
    rename_i t p item
    have moved := total_setPc few.threads n t .idle
    have added : total n { s.setPc t .idle with held := ⟨p, item⟩ :: s.held } + heldCount n s.held =
        total n (s.setPc t .idle) + heldCount n (⟨p, item⟩ :: s.held) := total_held _ n _
    have one : heldCount n (⟨p, item⟩ :: s.held) = heldCount n s.held + cached n [item] :=
      heldCount_cons n ⟨p, item⟩ s.held
    rw [pc] at moved
    change total n _ + made n s = total n s + made n s
    change _ + cached n [item] = _ + 0 at moved
    omega
  | drop idle found here =>
    rename_i t i handle pool
    have moved : total n ((s.setPool handle.pool pool.countReturned).setPc t
        (.dropStore handle.pool { handle.item with buffer := handle.item.buffer.burn })) +
          queued n (some pool) + 0 = total n s + queued n (some pool) + cached n [handle.item] :=
      total_go few _ here idle n _
    have ended : total n { (s.setPool handle.pool pool.countReturned).setPc t
        (.dropStore handle.pool { handle.item with buffer := handle.item.buffer.burn }) with
          held := s.held.eraseIdx i } + heldCount n s.held =
        total n ((s.setPool handle.pool pool.countReturned).setPc t
          (.dropStore handle.pool { handle.item with buffer := handle.item.buffer.burn })) +
            heldCount n (s.held.eraseIdx i) := total_held _ n _
    have one := heldCount_eraseIdx found n
    change total n _ + made n s = total n s + made n s
    omega
  | stored pc space => exact level (total_stash few pc (by rfl) (by rfl) n) rfl
  | dropAdmitted pc here full room => exact level (total_stay few pc (by rfl) n) rfl
  | dropRefused pc here full noRoom =>
    exact level (total_spend few pc (by rfl) (by rfl) n) rfl
  | dropPushed pc here => exact level (total_push few pc here (by rfl) (by rfl) n) rfl
  | dropCounted pc here => exact level (total_count few pc here (by rfl) (by rfl) n) rfl
  | dropNow found =>
    rename_i i handle
    have ended := total_held s n (s.held.eraseIdx i)
    have dropped := total_destroy { s with held := s.held.eraseIdx i } n
      [{ handle.item with buffer := handle.item.buffer.burn }]
    have one := heldCount_eraseIdx found n
    change total n _ + made n s = total n s + made n s
    change _ = _ + cached n [handle.item] at dropped
    omega
  | leak found =>
    rename_i i handle
    have one := heldCount_eraseIdx found n
    have more := cached_cons n handle.item s.leaked
    change total n _ + made n s = total n s + made n s
    simp only [total]
    omega
  | warm idle here => exact level (total_stay few idle (by rfl) n) rfl
  | warmEnd pc => exact level (total_stay few pc (by rfl) n) rfl
  | warmPushed pc here new =>
    rename_i t p pool left buffer
    have moved := total_go few (pool.enqueue ⟨s.created, buffer⟩) here pc n
      (.warmCount p left)
    have pushed := queued_enqueue n pool ⟨s.created, buffer⟩
    have one := cached_numbered n s.created buffer
    change total n ((s.setPool p (pool.enqueue _)).setPc t _) + _ = _ + made n _
    change _ + queued n (some pool) + 0 = _ + queued n (some (pool.enqueue _)) + 0 at moved
    simp only [made]
    omega
  | warmCounted pc here => exact level (total_count few pc here (by rfl) (by rfl) n) rfl
  | clear idle here => exact level (total_stay few idle (by rfl) n) rfl
  | clearPop pc here items =>
    exact level (total_pop few pc here items (by rfl) (by rfl) n) rfl
  | clearEnd pc here items => exact level (total_stay few pc (by rfl) n) rfl
  | clearCounted pc here =>
    rename_i t p pool item
    have spent : total n (((s.setPool p pool.countDown).setPc t (.clear p)).destroy [item]) =
        total n (s.setPool p pool.countDown) :=
      total_spend (few.setPool p pool.countDown) pc (by rfl) (by rfl) n
    exact level (spent.trans (total_recount few here (by rfl) n)) rfl
  | flush idle alive here => exact level (total_stay few idle (by rfl) n) rfl
  | flushEnd pc empty => exact level (total_stay few pc (by rfl) n) rfl
  | flushAdmitted pc here room top =>
    exact level (total_take few pc top (by rfl) (by rfl) n) rfl
  | flushRefused pc here noRoom top =>
    rename_i t p pool item
    have popped := total_setCache few.caches n t (s.caches t).dropLast
    have dropped := total_destroy (s.setCache t (s.caches t).dropLast) n
      [{ item with buffer := item.buffer.burn }]
    have split := cached_dropLast top n
    change total n _ + made n s = total n s + made n s
    change _ = _ + cached n [item] at dropped
    omega
  | flushPushed pc here => exact level (total_push few pc here (by rfl) (by rfl) n) rfl
  | flushCounted pc here => exact level (total_count few pc here (by rfl) (by rfl) n) rfl
  | exit idle =>
    rename_i t
    have emptied := total_setCache few.caches n t []
    have dropped := total_destroy
      { s.setCache t [] with tornDown := Function.update s.tornDown t true } n (s.caches t)
    change total n _ + made n s = total n s + made n s
    change _ + cached n (s.caches t) = total n s + 0 at emptied
    change _ = total n (s.setCache t []) + _ at dropped
    omega
  | use found stepped =>
    exact level (total_edit s found _ n) rfl
  | replace found =>
    exact level (total_edit s found _ n) rfl

end

/-! The places a buffer can be in. -/

inductive Place (ι θ : Type) where
  | queue (p : ι)
  /-- The thread's cache, and on its way from there to a queue. -/
  | cache (t : θ)
  | handle
  /-- A handle that a call of the thread is about to return, or that it is dropping. -/
  | handleOf (t : θ)
  /-- Leaked or destroyed. -/
  | gone
  /-- Popped by a `clear` of the thread, which destroys it next. -/
  | goneBy (t : θ)

section
variable {ι θ : Type}

def flushing (n : Nat) : Pc ι → Nat
  | .flushPush _ item => cached n [item]
  | _ => 0

def handling (n : Nat) : Pc ι → Nat
  | .acquirePopped _ item | .acquireDone _ item | .dropStore _ item | .dropPush _ item =>
    cached n [item]
  | _ => 0

def clearing (n : Nat) : Pc ι → Nat
  | .clearCount _ item => cached n [item]
  | _ => 0

def found (n : Nat) (s : World ι θ) : Place ι θ → Nat
  | .queue p => queued n (s.pools p)
  | .cache t => cached n (s.caches t) + flushing n (s.threads t)
  | .handle => heldCount n s.held
  | .handleOf t => handling n (s.threads t)
  | .gone => cached n s.leaked + cached n s.destroyed
  | .goneBy t => clearing n (s.threads t)

theorem carried_split (n : Nat) (pc : Pc ι) :
    carried n pc = flushing n pc + handling n pc + clearing n pc := by
  cases pc <;> simp [carried, Pc.carries, flushing, handling, clearing]

variable {s : World ι θ} {n : Nat}

theorem no_place (few : Few s) (none : total n s = 0) (place : Place ι θ) : found n s place = 0 := by
  unfold total at none
  have queue := eq_zero_of_tally (w := queued n) few.pools rfl (by omega)
  have cache := eq_zero_of_tally (w := cached n) few.caches rfl (by omega)
  have call := eq_zero_of_tally (w := carried n) few.threads rfl (by omega)
  simp only [carried_split] at call
  cases place with
  | queue p => exact queue p
  | cache t =>
    have inCall := call t
    have inCache := cache t
    simp only [found]
    omega
  | handle =>
    simp only [found]
    omega
  | handleOf t =>
    have inCall := call t
    simp only [found]
    omega
  | gone =>
    simp only [found]
    omega
  | goneBy t =>
    have inCall := call t
    simp only [found]
    omega

/-- One place holds the buffer once, and no other place holds it. -/
def Placed (n : Nat) (s : World ι θ) : Prop :=
  ∃ place, found n s place = 1 ∧ ∀ other, other ≠ place → found n s other = 0

theorem not_carried {pc : Pc ι} (none : carried n pc = 0) :
    flushing n pc = 0 ∧ handling n pc = 0 ∧ clearing n pc = 0 := by
  rw [carried_split] at none
  omega

theorem placed_call {t : θ} (one : carried n (s.threads t) = 1)
    (others : ∀ a, a ≠ t → carried n (s.threads a) = 0) (noQueue : ∀ p, queued n (s.pools p) = 0)
    (noCache : ∀ a, cached n (s.caches a) = 0) (held : heldCount n s.held = 0)
    (gone : cached n s.leaked + cached n s.destroyed = 0) : Placed n s := by
  have away : ∀ a, a = t ∨ flushing n (s.threads a) = 0 ∧ handling n (s.threads a) = 0 ∧
      clearing n (s.threads a) = 0 :=
    fun a => or_iff_not_imp_left.mpr fun different => not_carried (others a different)
  rw [carried_split] at one
  rcases (by omega : flushing n (s.threads t) = 1 ∨ handling n (s.threads t) = 1 ∨
    clearing n (s.threads t) = 1) with place | place | place
  · refine ⟨.cache t, by simp only [found, noCache t, place], fun other different => ?_⟩
    cases other <;> grind [found]
  · refine ⟨.handleOf t, place, fun other different => ?_⟩
    cases other <;> grind [found]
  · refine ⟨.goneBy t, place, fun other different => ?_⟩
    cases other <;> grind [found]

theorem one_place (few : Few s) (one : total n s = 1) : Placed n s := by
  unfold total at one
  have queues := eq_zero_of_tally (w := queued n) few.pools rfl
  have caches := eq_zero_of_tally (w := cached n) few.caches rfl
  have calls : tally (carried n) s.threads = 0 → ∀ t, flushing n (s.threads t) = 0 ∧
      handling n (s.threads t) = 0 ∧ clearing n (s.threads t) = 0 :=
    fun none t => not_carried (eq_zero_of_tally few.threads rfl none t)
  rcases (by omega : tally (queued n) s.pools = 1 ∨ tally (cached n) s.caches = 1 ∨
      tally (carried n) s.threads = 1 ∨ heldCount n s.held = 1 ∨
        cached n s.leaked + cached n s.destroyed = 1) with queue | cache | call | held | gone
  · obtain ⟨p, here, others⟩ := tally_one few.pools rfl queue
    have noCache := caches (by omega)
    have noCall := calls (by omega)
    refine ⟨.queue p, here, fun other different => ?_⟩
    cases other <;> grind [found]
  · obtain ⟨t, here, others⟩ := tally_one few.caches rfl cache
    have noQueue := queues (by omega)
    have noCall := calls (by omega)
    have away : ∀ a, a = t ∨ cached n (s.caches a) = 0 := fun a => or_iff_not_imp_left.mpr (others a)
    refine ⟨.cache t, by simp only [found, here, noCall t], fun other different => ?_⟩
    cases other <;> grind [found]
  · obtain ⟨t, here, others⟩ := tally_one few.threads rfl call
    exact placed_call here others (queues (by omega)) (caches (by omega)) (by omega) (by omega)
  · have noQueue := queues (by omega)
    have noCache := caches (by omega)
    have noCall := calls (by omega)
    refine ⟨.handle, held, fun other different => ?_⟩
    cases other <;> grind [found]
  · have noQueue := queues (by omega)
    have noCache := caches (by omega)
    have noCall := calls (by omega)
    refine ⟨.gone, gone, fun other different => ?_⟩
    cases other <;> grind [found]

end

section
variable {ι θ : Type} [DecidableEq ι] [DecidableEq θ] {s : World ι θ}

theorem total_run (run : Reaches Taken World.empty s) :
    Few s ∧ ∀ n, total n s = made n s := by
  refine run.keeps (I := fun u => Few u ∧ ∀ n, total n u = made n u) ⟨few_empty, fun n => ?_⟩ ?_
  · have queues : tally (queued n) (World.empty : World ι θ).pools = 0 := tally_zero fun _ => rfl
    have caches : tally (cached n) (World.empty : World ι θ).caches = 0 := tally_zero fun _ => rfl
    have calls : tally (carried n) (World.empty : World ι θ).threads = 0 := tally_zero fun _ => rfl
    rw [total, queues, caches, calls]
    rfl
  · rintro u action v ⟨few, balanced⟩ taken
    have step := step_of_taken taken
    refine ⟨few_step few step, fun n => ?_⟩
    have kept := total_step few step n
    have before := balanced n
    omega

/-- In every state of every run, each buffer created so far is once in one place and nowhere else,
and no other buffer is anywhere; and where no push or pop of a pool is between its two steps,
`available()` is the length of its queue. -/
theorem every_buffer_in_one_place (run : Reaches Taken World.empty s) :
    (∀ n, n < s.created → ∃ place, found n s place = 1 ∧
      ∀ other, other ≠ place → found n s other = 0) ∧
    (∀ n, s.created ≤ n → ∀ place, found n s place = 0) ∧
    ∀ p pool, s.pools p = some pool → (∀ t, ((s.threads t).on p).counting = .idle) →
      pool.available = pool.globalPool.items.length % 2 ^ 64 ∧
      (pool.globalPool.items.length < 2 ^ 64 →
        pool.available = pool.globalPool.items.length) := by
  obtain ⟨few, balanced⟩ := total_run run
  refine ⟨fun n created => ?_, fun n later place => ?_, fun p pool here settled => ?_⟩
  · exact one_place few ((balanced n).trans (if_pos created))
  · exact no_place few ((balanced n).trans (if_neg (by omega))) place
  · obtain ⟨-, size_lt, congr⟩ := (tracked_run run p).congruent pool here
    have pushes : CountedQueue.pushing ((s.lane p).queue pool) = 0 :=
      tally_zero fun t => congrArg CountedQueue.Pc.pushing (settled t)
    have pops : CountedQueue.popping ((s.lane p).queue pool) = 0 :=
      tally_zero fun t => congrArg CountedQueue.Pc.popping (settled t)
    rw [pushes, pops, Nat.add_zero, Nat.add_zero, Nat.mod_eq_of_lt size_lt] at congr
    refine ⟨congr, fun small => ?_⟩
    exact congr.trans (Nat.mod_eq_of_lt small)

theorem every_buffer_in_one_place_acquired :
    ∃ s : World Unit Bool,
      exec next World.empty [.new () ⟨8, 2, 1⟩, .acquire false (), .advance false] = some s ∧
      s.created = 1 ∧ found 0 s (.handleOf false) = 1 ∧
      ∃ place, found 0 s place = 1 ∧ ∀ other, other ≠ place → found 0 s other = 0 := by
  obtain ⟨s, script, created, here⟩ : ∃ s : World Unit Bool,
      exec next World.empty [.new () ⟨8, 2, 1⟩, .acquire false (), .advance false] = some s ∧
      s.created = 1 ∧ found 0 s (.handleOf false) = 1 := ⟨_, rfl, rfl, rfl⟩
  exact ⟨s, script, created, here,
    (every_buffer_in_one_place (.of_exec script)).1 0 (by rw [created]; decide)⟩

end

end Secbuf.FastLedger
