import Console16.Proofs.Machine.Session

/-!
# Console16.Proofs.Machine.Draws

The random words of a session. A seeded stream gives the words of the blocks of its key, one block
after another and none of them twice. Only `RND` draws from the stream, one word each time, so in
any session the words are handed out in the order of the `RND`s that were executed; batches, faults
and whatever the host does in between take none.

* `Stream.next_within`: the next word, and where the stream stands after it.
* `Stream.next_skip_ofSeed`: every word of a seeded stream.
* `Machine.random_of_executes`: how far the stream has come after a history.
* `rnd_draws_in_order`: every `RND` of every session.
-/

namespace Console16

namespace Stream

/-- The stream after some words. -/
def skip (s : Stream) : Nat → Stream
  | 0 => s
  | n + 1 => (s.skip n).next.2

/-- The stream of a key with so many words of a block drawn, and all words of the blocks before. -/
def within (key : ChaCha.Key) (block drawn : Nat) : Stream :=
  ⟨key, ChaCha.block key (.ofNat block), drawn, .ofNat (block + 1)⟩

theorem skip_add (s : Stream) (a b : Nat) : s.skip (a + b) = (s.skip a).skip b := by
  induction b with
  | zero => rfl
  | succ b ih => rw [← Nat.add_assoc, skip, ih, skip]

theorem ofSeed_eq_within (seed : UInt64) : ofSeed seed = within (Seed.key seed) 0 0 := rfl

/-- After the last word of a block comes the first of the next. -/
theorem next_within (key : ChaCha.Key) {b d : Nat} (hd : d ≤ 16) :
    (within key b d).next.1 = wordAt key (16 * b + d) ∧
      ∃ b' d', (within key b d).next.2 = within key b' d' ∧ d' ≤ 16 ∧
        16 * b' + d' = 16 * b + d + 1 := by
  by_cases h : d < 16
  · have hblock : (16 * b + d) / 16 = b := by omega
    have hword : (16 * b + d) % 16 = d := by omega
    have hnext : (within key b d).next =
        ((ChaCha.block key (.ofNat b))[d], within key b (d + 1)) := dif_pos h
    rw [hnext]
    refine ⟨?_, b, d + 1, rfl, h, rfl⟩
    simp only [wordAt, hblock, hword]
  · obtain rfl : d = 16 := by omega
    have hblock : (16 * b + 16) / 16 = b + 1 := by omega
    have hword : (16 * b + 16) % 16 = 0 := by omega
    have hnumber : UInt64.ofNat (b + 1 + 1) = UInt64.ofNat (b + 1) + 1 := UInt64.ofNat_add _ _
    have hnext : (within key b 16).next =
        ((ChaCha.block key (.ofNat (b + 1)))[0], within key (b + 1) 1) := by
      simp only [within, hnumber]
      exact dif_neg h
    rw [hnext]
    refine ⟨?_, b + 1, 1, rfl, by decide, rfl⟩
    simp only [wordAt, hblock, hword]

theorem skip_ofSeed (seed : UInt64) (k : Nat) :
    ∃ b d, (ofSeed seed).skip k = within (Seed.key seed) b d ∧ d ≤ 16 ∧ 16 * b + d = k := by
  induction k with
  | zero => exact ⟨0, 0, ofSeed_eq_within seed, Nat.zero_le 16, rfl⟩
  | succ k ih =>
    obtain ⟨b, d, hskip, hd, rfl⟩ := ih
    obtain ⟨-, b', d', hnext, hd', hk⟩ := next_within (Seed.key seed) hd
    refine ⟨b', d', ?_, hd', hk⟩
    rw [skip, hskip, hnext]

theorem next_skip_ofSeed (seed : UInt64) (k : Nat) :
    ((ofSeed seed).skip k).next.1 = wordAt (Seed.key seed) k := by
  obtain ⟨b, d, hskip, hd, rfl⟩ := skip_ofSeed seed k
  rw [hskip]
  exact (next_within (Seed.key seed) hd).1

end Stream

namespace Machine

variable {S K C : Type}

/-- The next instruction is an `RND`. -/
def drawsNext (m : Machine S K C) : Bool :=
  match m.current with
  | .rnd _ => true
  | _ => false

/-- The `RND`s of a history. -/
def draws (past : List (Machine S K C)) : Nat :=
  past.countP drawsNext

theorem draws_eq_zero {past : List (Machine S K C)}
    (h : ∀ p ∈ past, ∀ dest, p.current ≠ .rnd dest) : draws past = 0 := by
  rw [draws, List.countP_eq_zero]
  intro p hp hdraws
  unfold drawsNext at hdraws
  split at hdraws
  · rename_i dest hcur
    exact h p hp dest hcur
  · cases hdraws

variable [Screen S] [Keypad K] [Clock C]

theorem random_step {m k : Machine S K C} (h : m.step = .next k) :
    k.random = m.random.skip (draws [m]) := by
  obtain rfl := of_step_next h
  have hrandom : (m.complete m.current).random = m.randomAfter m.current := rfl
  rw [hrandom, draws, List.countP_singleton, drawsNext]
  cases m.current <;> rfl

theorem random_of_executes {m k : Machine S K C} {past : List (Machine S K C)}
    (h : Executes m past k) : k.random = m.random.skip (draws past) := by
  induction h with
  | start => rfl
  | step _ hstep ih =>
    rw [random_step hstep, ih, ← Stream.skip_add, draws, draws, draws, List.countP_append]
  | setReg _ _ _ ih => exact ih
  | setKeypad _ _ ih => exact ih
  | setClock _ _ ih => exact ih
  | halt _ ih => exact ih

theorem step_rnd {m : Machine S K C} {dest : Register} (h : m.current = .rnd dest) :
    ∃ k, m.step = .next k ∧ k.cpu.reg dest = m.random.next.1.toUInt16 :=
  ⟨_, step_eq h nofun, Cpu.reg_setReg_self m.cpu dest _⟩

end Machine

/-- In every session with a seeded machine, each `RND` stores the low sixteen bits of the word whose
number is that of the `RND`s executed before it, and the stream stands at the word after the last
one stored. What executes no `RND` does not move it. -/
theorem rnd_draws_in_order {S K C : Type} [Screen S] [Keypad K] [Clock C] (m : Machine S K C)
    (seed : UInt64) (ops : List (HostOp K C)) :
    (∀ past p later dest, (m.withSeed seed).history ops = past ++ p :: later →
      p.current = .rnd dest →
      ∃ k, p.step = .next k ∧
        (k.cpu.reg dest).toNat =
          (Stream.wordAt (Seed.key seed) (Machine.draws past)).toNat % 65536) ∧
    ((m.withSeed seed).after ops).random =
      (Stream.ofSeed seed).skip (Machine.draws ((m.withSeed seed).history ops)) ∧
    (∀ k, ((Stream.ofSeed seed).skip k).next.1 = Stream.wordAt (Seed.key seed) k) ∧
    ∀ op, (∀ p ∈ ((m.withSeed seed).after ops).executed op, ∀ dest, p.current ≠ .rnd dest) →
      (((m.withSeed seed).after ops).perform op).random = ((m.withSeed seed).after ops).random := by
  have hall := Machine.executes_history (m.withSeed seed) ops
  refine ⟨?_, Machine.random_of_executes hall, Stream.next_skip_ofSeed seed, ?_⟩
  · intro past p later dest hsplit hcur
    obtain ⟨k, hstep, hreg⟩ := Machine.step_rnd hcur
    have hbefore : (m.withSeed seed).Executes past p := (hsplit ▸ hall).before
    have hrandom : p.random = (Stream.ofSeed seed).skip (Machine.draws past) :=
      Machine.random_of_executes hbefore
    refine ⟨k, hstep, ?_⟩
    rw [hreg, hrandom, Stream.next_skip_ofSeed]
    exact UInt32.toNat_toUInt16 _
  · intro op hop
    have hperform := Machine.random_of_executes
      (Machine.executes_perform ((m.withSeed seed).after ops) op)
    rw [hperform, Machine.draws_eq_zero hop, Stream.skip]

/-- `RND A` in a loop, for one batch of thirty-two instructions and one instruction more: the batch
draws all words of the first block. -/
theorem exists_second_block :
    ∃ m p : Machine PixelLog KeyState ManualClock,
      Machine.boot [0x1c, 2, 0, 0, 0x31, 0, 0, 0] PixelLog.empty (KeyState.released .empty)
          (⟨0, 20⟩ : ManualClock) (.ofSeed 0) ⟨10, 32, ⟨true⟩⟩ = .ok m ∧
        (m.withSeed 7).history [.batch 1, .step] = (m.withSeed 7).executed (.batch 1) ++ p :: [] ∧
        p.current = .rnd 2 ∧ Machine.draws ((m.withSeed 7).executed (.batch 1)) = 16 :=
  ⟨_, _, rfl, rfl, rfl, rfl⟩

theorem rnd_draws_in_order_of_second_block :
    ∃ m p k : Machine PixelLog KeyState ManualClock,
      p ∈ (m.withSeed 7).history [.batch 1, .step] ∧ p.current = .rnd 2 ∧ p.step = .next k ∧
        (k.cpu.reg 2).toNat = (Stream.wordAt (Seed.key 7) 16).toNat % 65536 := by
  obtain ⟨m, p, -, hhistory, hcur, hdraws⟩ := exists_second_block
  obtain ⟨k, hstep, hreg⟩ :=
    (rnd_draws_in_order m 7 [.batch 1, .step]).1 _ _ _ _ hhistory hcur
  rw [hdraws] at hreg
  refine ⟨m, p, k, ?_, hcur, hstep, hreg⟩
  rw [hhistory]
  exact List.mem_append_right _ List.mem_cons_self

end Console16
