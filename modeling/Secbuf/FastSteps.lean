import Secbuf.FastPool

/-! The steps of the lock-free pool, one name for each branch the code can take. -/

namespace Secbuf.FastPool
open Calls Storage BufferCore BufferScript Custody

section
variable {ι θ : Type} [DecidableEq ι] [DecidableEq θ]

inductive Step (s : World ι θ) : Action ι θ → World ι θ → Prop
  | new {p : ι} {config : PoolConfig} {items : List Item} (absent : s.pools p = none)
      (made : freshItems config.bufferSize config.minPoolSize s.created = .ok items) :
      Step s (.new p config)
        { s.setPool p ⟨⟨items, config.minPoolSize % 2 ^ 64⟩, config, ⟨0, 0, 0, 0⟩⟩ with
          created := s.created + config.minPoolSize }
  | acquire {t : θ} {p : ι} {pool : FastBufferPool} (idle : s.threads t = .idle)
      (alive : s.tornDown t = false) (here : s.pools p = some pool) :
      Step s (.acquire t p) ((s.setPool p pool.countAcquired).setPc t (.acquireCache p))
  | hit {t : θ} {p : ι} {pool : FastBufferPool} {item : Item} (pc : s.threads t = .acquireCache p)
      (here : s.pools p = some pool) (top : (s.caches t).getLast? = some item) :
      Step s (.advance t)
        (((s.setPool p pool.countHit).setCache t (s.caches t).dropLast).setPc t
          (.acquireDone p item))
  | acquirePop {t : θ} {p : ι} {pool : FastBufferPool} {item : Item} {rest : List Item}
      (pc : s.threads t = .acquireCache p) (here : s.pools p = some pool)
      (empty : (s.caches t).getLast? = none) (items : pool.globalPool.items = item :: rest) :
      Step s (.advance t) ((s.setPool p (pool.dequeue rest)).setPc t (.acquirePopped p item))
  | acquireMiss {t : θ} {p : ι} {pool : FastBufferPool} (pc : s.threads t = .acquireCache p)
      (here : s.pools p = some pool) (empty : (s.caches t).getLast? = none)
      (items : pool.globalPool.items = []) :
      Step s (.advance t) (s.setPc t (.acquireEmpty p))
  | acquireCounted {t : θ} {p : ι} {pool : FastBufferPool} {item : Item}
      (pc : s.threads t = .acquirePopped p item) (here : s.pools p = some pool) :
      Step s (.advance t) ((s.setPool p pool.countDown).setPc t (.acquireDone p item))
  | allocated {t : θ} {p : ι} {pool : FastBufferPool} {buffer : Buffer}
      (pc : s.threads t = .acquireEmpty p) (here : s.pools p = some pool)
      (made : Buffer.new pool.config.bufferSize = .ok buffer) :
      Step s (.advance t)
        { (s.setPool p pool.countAllocated).setPc t (.acquireDone p ⟨s.created, buffer⟩) with
          created := s.created + 1 }
  | handed {t : θ} {p : ι} {item : Item} (pc : s.threads t = .acquireDone p item) :
      Step s (.advance t) { s.setPc t .idle with held := ⟨p, item⟩ :: s.held }
  | drop {t : θ} {i : Nat} {handle : FastHandle ι} {pool : FastBufferPool}
      (idle : s.threads t = .idle) (found : s.held[i]? = some handle)
      (here : s.pools handle.pool = some pool) :
      Step s (.drop t i)
        { (s.setPool handle.pool pool.countReturned).setPc t
            (.dropStore handle.pool { handle.item with buffer := handle.item.buffer.burn }) with
          held := s.held.eraseIdx i }
  | stored {t : θ} {p : ι} {item : Item} (pc : s.threads t = .dropStore p item)
      (space : s.tornDown t = false ∧ (s.caches t).length < THREAD_CACHE_CAPACITY) :
      Step s (.advance t) ((s.setCache t (s.caches t ++ [item])).setPc t .idle)
  | dropAdmitted {t : θ} {p : ι} {pool : FastBufferPool} {item : Item}
      (pc : s.threads t = .dropStore p item) (here : s.pools p = some pool)
      (full : ¬ (s.tornDown t = false ∧ (s.caches t).length < THREAD_CACHE_CAPACITY))
      (room : pool.hasRoom = true) : Step s (.advance t) (s.setPc t (.dropPush p item))
  | dropRefused {t : θ} {p : ι} {pool : FastBufferPool} {item : Item}
      (pc : s.threads t = .dropStore p item) (here : s.pools p = some pool)
      (full : ¬ (s.tornDown t = false ∧ (s.caches t).length < THREAD_CACHE_CAPACITY))
      (noRoom : ¬ pool.hasRoom = true) :
      Step s (.advance t) ((s.setPc t .idle).destroy [item])
  | dropPushed {t : θ} {p : ι} {pool : FastBufferPool} {item : Item}
      (pc : s.threads t = .dropPush p item) (here : s.pools p = some pool) :
      Step s (.advance t) ((s.setPool p (pool.enqueue item)).setPc t (.dropCount p))
  | dropCounted {t : θ} {p : ι} {pool : FastBufferPool} (pc : s.threads t = .dropCount p)
      (here : s.pools p = some pool) :
      Step s (.advance t) ((s.setPool p pool.countUp).setPc t .idle)
  | dropNow {i : Nat} {handle : FastHandle ι} (found : s.held[i]? = some handle) :
      Step s (.dropNow i) ({ s with held := s.held.eraseIdx i }.destroy
        [{ handle.item with buffer := handle.item.buffer.burn }])
  | leak {i : Nat} {handle : FastHandle ι} (found : s.held[i]? = some handle) :
      Step s (.leak i) { s with held := s.held.eraseIdx i, leaked := handle.item :: s.leaked }
  | warm {t : θ} {p : ι} {pool : FastBufferPool} {targetSize : Nat} (idle : s.threads t = .idle)
      (here : s.pools p = some pool) :
      Step s (.warm t p targetSize)
        (s.setPc t (.warm p (min targetSize pool.config.maxPoolSize - pool.globalPool.len)))
  | warmEnd {t : θ} {p : ι} (pc : s.threads t = .warm p 0) : Step s (.advance t) (s.setPc t .idle)
  | warmPushed {t : θ} {p : ι} {pool : FastBufferPool} {left : Nat} {buffer : Buffer}
      (pc : s.threads t = .warm p (left + 1)) (here : s.pools p = some pool)
      (made : Buffer.new pool.config.bufferSize = .ok buffer) :
      Step s (.advance t)
        { (s.setPool p (pool.enqueue ⟨s.created, buffer⟩)).setPc t (.warmCount p left) with
          created := s.created + 1 }
  | warmCounted {t : θ} {p : ι} {pool : FastBufferPool} {left : Nat}
      (pc : s.threads t = .warmCount p left) (here : s.pools p = some pool) :
      Step s (.advance t) ((s.setPool p pool.countUp).setPc t (.warm p left))
  | clear {t : θ} {p : ι} {pool : FastBufferPool} (idle : s.threads t = .idle)
      (here : s.pools p = some pool) : Step s (.clear t p) (s.setPc t (.clear p))
  | clearPop {t : θ} {p : ι} {pool : FastBufferPool} {item : Item} {rest : List Item}
      (pc : s.threads t = .clear p) (here : s.pools p = some pool)
      (items : pool.globalPool.items = item :: rest) :
      Step s (.advance t) ((s.setPool p (pool.dequeue rest)).setPc t (.clearCount p item))
  | clearEnd {t : θ} {p : ι} {pool : FastBufferPool} (pc : s.threads t = .clear p)
      (here : s.pools p = some pool) (items : pool.globalPool.items = []) :
      Step s (.advance t) (s.setPc t .idle)
  | clearCounted {t : θ} {p : ι} {pool : FastBufferPool} {item : Item}
      (pc : s.threads t = .clearCount p item) (here : s.pools p = some pool) :
      Step s (.advance t) (((s.setPool p pool.countDown).setPc t (.clear p)).destroy [item])
  | flush {t : θ} {p : ι} {pool : FastBufferPool} (idle : s.threads t = .idle)
      (alive : s.tornDown t = false) (here : s.pools p = some pool) :
      Step s (.clearThreadCache t p) (s.setPc t (.flush p))
  | flushEnd {t : θ} {p : ι} (pc : s.threads t = .flush p)
      (empty : (s.caches t).getLast? = none) : Step s (.advance t) (s.setPc t .idle)
  | flushAdmitted {t : θ} {p : ι} {pool : FastBufferPool} {item : Item}
      (pc : s.threads t = .flush p) (here : s.pools p = some pool) (room : pool.hasRoom = true)
      (top : (s.caches t).getLast? = some item) :
      Step s (.advance t) ((s.setCache t (s.caches t).dropLast).setPc t (.flushPush p item))
  | flushRefused {t : θ} {p : ι} {pool : FastBufferPool} {item : Item}
      (pc : s.threads t = .flush p) (here : s.pools p = some pool)
      (noRoom : ¬ pool.hasRoom = true) (top : (s.caches t).getLast? = some item) :
      Step s (.advance t) ((s.setCache t (s.caches t).dropLast).destroy
        [{ item with buffer := item.buffer.burn }])
  | flushPushed {t : θ} {p : ι} {pool : FastBufferPool} {item : Item}
      (pc : s.threads t = .flushPush p item) (here : s.pools p = some pool) :
      Step s (.advance t) ((s.setPool p (pool.enqueue item)).setPc t (.flushCount p))
  | flushCounted {t : θ} {p : ι} {pool : FastBufferPool} (pc : s.threads t = .flushCount p)
      (here : s.pools p = some pool) :
      Step s (.advance t) ((s.setPool p pool.countUp).setPc t (.flush p))
  | exit {t : θ} (idle : s.threads t = .idle) :
      Step s (.exit t)
        ({ s.setCache t [] with tornDown := Function.update s.tornDown t true }.destroy (s.caches t))
  | use {i : Nat} {op : BufferOp} {handle : FastHandle ι} {b : Buffer}
      (found : s.held[i]? = some handle) (stepped : Stepped handle.item.buffer op b) :
      Step s (.use i op) { s with held := s.held.set i (handle.withBuffer b) }
  | replace {i : Nat} {b : Buffer} {handle : FastHandle ι} (found : s.held[i]? = some handle) :
      Step s (.replace i b) { s with held := s.held.set i (handle.withBuffer b) }

variable {s u : World ι θ}

theorem step_of_advance {t : θ} (taken : advance s t = some u) : Step s (.advance t) u := by
  unfold advance at taken
  cases pc : s.threads t with
  | idle => simp [pc] at taken
  | acquireCache p =>
    simp only [pc] at taken
    obtain ⟨pool, here, later⟩ := Option.bind_eq_some_iff.mp taken
    cases top : (s.caches t).getLast? with
    | some item =>
      simp only [top, Option.some.injEq] at later
      exact later ▸ .hit pc here top
    | none =>
      cases items : pool.globalPool.items with
      | cons item rest =>
        simp only [top, items, Option.some.injEq] at later
        exact later ▸ .acquirePop pc here top items
      | nil =>
        simp only [top, items, Option.some.injEq] at later
        exact later ▸ .acquireMiss pc here top items
  | acquirePopped p item =>
    simp only [pc] at taken
    obtain ⟨pool, here, later⟩ := Option.bind_eq_some_iff.mp taken
    cases later
    exact .acquireCounted pc here
  | acquireEmpty p =>
    simp only [pc] at taken
    obtain ⟨pool, here, later⟩ := Option.bind_eq_some_iff.mp taken
    cases made : Buffer.new pool.config.bufferSize with
    | error reason => simp [made] at later
    | ok buffer =>
      simp only [made, Option.some.injEq] at later
      exact later ▸ .allocated pc here made
  | acquireDone p item =>
    simp only [pc, Option.some.injEq] at taken
    exact taken ▸ .handed pc
  | dropStore p item =>
    simp only [pc] at taken
    split_ifs at taken with room
    · cases taken
      exact .stored pc room
    · obtain ⟨pool, here, later⟩ := Option.bind_eq_some_iff.mp taken
      split_ifs at later with room'
      · cases later
        exact .dropAdmitted pc here room room'
      · cases later
        exact .dropRefused pc here room room'
  | dropPush p item =>
    simp only [pc] at taken
    obtain ⟨pool, here, later⟩ := Option.bind_eq_some_iff.mp taken
    cases later
    exact .dropPushed pc here
  | dropCount p =>
    simp only [pc] at taken
    obtain ⟨pool, here, later⟩ := Option.bind_eq_some_iff.mp taken
    cases later
    exact .dropCounted pc here
  | warm p left =>
    cases left with
    | zero =>
      simp only [pc, Option.some.injEq] at taken
      exact taken ▸ .warmEnd pc
    | succ left =>
      simp only [pc] at taken
      obtain ⟨pool, here, later⟩ := Option.bind_eq_some_iff.mp taken
      cases made : Buffer.new pool.config.bufferSize with
      | error reason => simp [made] at later
      | ok buffer =>
        simp only [made, Option.some.injEq] at later
        exact later ▸ .warmPushed pc here made
  | warmCount p left =>
    simp only [pc] at taken
    obtain ⟨pool, here, later⟩ := Option.bind_eq_some_iff.mp taken
    cases later
    exact .warmCounted pc here
  | clear p =>
    simp only [pc] at taken
    obtain ⟨pool, here, later⟩ := Option.bind_eq_some_iff.mp taken
    cases items : pool.globalPool.items with
    | nil =>
      simp only [items, Option.some.injEq] at later
      exact later ▸ .clearEnd pc here items
    | cons item rest =>
      simp only [items, Option.some.injEq] at later
      exact later ▸ .clearPop pc here items
  | clearCount p item =>
    simp only [pc] at taken
    obtain ⟨pool, here, later⟩ := Option.bind_eq_some_iff.mp taken
    cases later
    exact .clearCounted pc here
  | flush p =>
    simp only [pc] at taken
    cases top : (s.caches t).getLast? with
    | none =>
      simp only [top, Option.some.injEq] at taken
      exact taken ▸ .flushEnd pc top
    | some item =>
      simp only [top] at taken
      obtain ⟨pool, here, later⟩ := Option.bind_eq_some_iff.mp taken
      split_ifs at later with room
      · cases later
        exact .flushAdmitted pc here room top
      · cases later
        exact .flushRefused pc here room top
  | flushPush p item =>
    simp only [pc] at taken
    obtain ⟨pool, here, later⟩ := Option.bind_eq_some_iff.mp taken
    cases later
    exact .flushPushed pc here
  | flushCount p =>
    simp only [pc] at taken
    obtain ⟨pool, here, later⟩ := Option.bind_eq_some_iff.mp taken
    cases later
    exact .flushCounted pc here

theorem step_of_taken {action : Action ι θ} (taken : Taken s action u) : Step s action u := by
  cases action with
  | new p config =>
    simp only [Taken, next] at taken
    split at taken
    · rename_i absent made
      cases taken
      exact .new absent made
    · cases taken
  | acquire t p =>
    simp only [Taken, next] at taken
    split_ifs at taken with ready
    obtain ⟨pool, here, later⟩ := Option.bind_eq_some_iff.mp taken
    cases later
    exact .acquire ready.1 ready.2 here
  | drop t i =>
    simp only [Taken, next] at taken
    split_ifs at taken with idle
    obtain ⟨handle, found, later⟩ := Option.bind_eq_some_iff.mp taken
    obtain ⟨pool, here, later⟩ := Option.bind_eq_some_iff.mp later
    cases later
    exact .drop idle found here
  | dropNow i =>
    obtain ⟨handle, found, later⟩ := Option.bind_eq_some_iff.mp taken
    cases later
    exact .dropNow found
  | leak i =>
    obtain ⟨handle, found, later⟩ := Option.bind_eq_some_iff.mp taken
    cases later
    exact .leak found
  | warm t p targetSize =>
    simp only [Taken, next] at taken
    split_ifs at taken with idle
    obtain ⟨pool, here, later⟩ := Option.bind_eq_some_iff.mp taken
    cases later
    exact .warm idle here
  | clear t p =>
    simp only [Taken, next] at taken
    split_ifs at taken with idle
    obtain ⟨pool, here, later⟩ := Option.bind_eq_some_iff.mp taken
    cases later
    exact .clear idle here
  | clearThreadCache t p =>
    simp only [Taken, next] at taken
    split_ifs at taken with ready
    obtain ⟨pool, here, later⟩ := Option.bind_eq_some_iff.mp taken
    cases later
    exact .flush ready.1 ready.2 here
  | advance t => exact step_of_advance taken
  | exit t =>
    simp only [Taken, next] at taken
    split_ifs at taken with idle
    cases taken
    exact .exit idle
  | use i op =>
    obtain ⟨handle, found, later⟩ := Option.bind_eq_some_iff.mp taken
    obtain ⟨after, stepped, later⟩ := Option.bind_eq_some_iff.mp later
    cases later
    exact .use found stepped
  | replace i b =>
    obtain ⟨handle, found, later⟩ := Option.bind_eq_some_iff.mp taken
    cases later
    exact .replace found

end

end Secbuf.FastPool
