import Console16.Random.ChaCha

/-!
# Console16.Random.Stream

The seeded stream of 32-bit words that `RND` draws from: the blocks of a ChaCha key, one after the
other. The key is drawn from the seed by a linear congruential generator.

* `Stream.wordAt`: word `k` of a key's stream is word `k % 16` of block `k / 16`.
* `Stream.next`: the words in order, each block computed once.
-/

namespace Console16

/-- One step of the generator that keys are drawn from. -/
def Seed.advance (state : UInt64) : UInt64 :=
  state * 6364136223846793005 + 11634580027462260723

/-- The word a generator state gives: its high bits, rotated by its highest ones. -/
def Seed.output (state : UInt64) : UInt32 :=
  let x := (((state >>> 18) ^^^ state) >>> 27).toUInt32
  let rot := (state >>> 59).toUInt32
  (x >>> rot) ||| (x <<< ((32 - rot) % 32))

/-- The key of a seed. -/
def Seed.key (seed : UInt64) : ChaCha.Key :=
  Vector.ofFn fun i => Seed.output (Nat.repeat Seed.advance (i.val + 1) seed)

/-- The words still to come: the rest of a block, then the blocks from `number` on. -/
structure Stream where
  key : ChaCha.Key
  /-- The block being drawn from. -/
  current : ChaCha.Block
  /-- Words already drawn from it. -/
  drawn : Nat
  /-- The block after it. -/
  number : UInt64

namespace Stream

/-- The stream of a seed, from its first word. -/
def ofSeed (seed : UInt64) : Stream :=
  let key := Seed.key seed
  ⟨key, ChaCha.block key 0, 0, 1⟩

/-- Word `k` of the stream of a key. -/
def wordAt (key : ChaCha.Key) (k : Nat) : UInt32 :=
  (ChaCha.block key (UInt64.ofNat (k / 16)))[k % 16]

/-- The next word and the stream after it. -/
def next (s : Stream) : UInt32 × Stream :=
  if h : s.drawn < 16 then
    (s.current[s.drawn], { s with drawn := s.drawn + 1 })
  else
    let current := ChaCha.block s.key s.number
    (current[0], { s with current, drawn := 1, number := s.number + 1 })

end Stream
end Console16
