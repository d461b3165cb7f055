import Maestro.Relay

/-!
# What a relay does to both sockets, and in what order

A socket is whatever answers its reads and takes its writes: `copyTurns` is the
loop of `copy_response` over any two of them, and writes down each operation
with what it came to.
-/
namespace Maestro.Proxy
open Socket

/-! ## The loop, operation by operation -/

/-- An operation on a socket, with what it came to. -/
inductive Operation
  | Read (result : Except IoError (List UInt8))
  | Write (bytes : List UInt8) (failure : Option IoError)
  | Flush (failure : Option IoError)

/-- A connection that is read: what the next read returns, and the connection
    after it. -/
abbrev Reads (U : Type) := U → Except IoError (List UInt8 × U)

/-- A connection that is written to. -/
structure Writes (D : Type) where
  writeAll : D → List UInt8 → D × Option IoError
  flush : D → D × Option IoError

section Loop
variable {U D : Type} (reads : Reads U) (writes : Writes D)

/-- The first turns of the loop of `copy_response`: what is done, the
    connection to the caller then, and whether the loop has returned. -/
def copyTurns : ℕ → U → D → List Operation × D × Bool
  | 0, _, downstream => ([],downstream,false)
  | turns + 1, upstream, downstream =>
    match reads upstream with
    | .error error => ([.Read (.error error)],downstream,true)
    | .ok (read,upstream) =>
      if read.length = 0 then ([.Read (.ok read)],downstream,true)
      else match writes.writeAll downstream read with
        | (downstream,some error) => ([.Read (.ok read),.Write read (some error)],downstream,true)
        | (downstream,none) => match writes.flush downstream with
          | (downstream,some error) => ([.Read (.ok read),.Write read none,.Flush (some error)],downstream,true)
          | (downstream,none) => match copyTurns turns upstream downstream with
            | (more,downstream,returned) =>
              (.Read (.ok read) :: .Write read none :: .Flush none :: more,downstream,returned)

end Loop

/-! ## What the operations amount to -/

/-- The bytes that an operation read. -/
def Operation.got : Operation → List UInt8
  | .Read (.ok bytes) => bytes
  | _ => []

/-- The bytes that an operation wrote. -/
def Operation.put : Operation → List UInt8
  | .Write bytes none => bytes
  | _ => []

def Operation.flushes : Operation → Bool
  | .Flush none => true
  | _ => false

/-- The operation is the end of one of the sides. -/
def Operation.ends : Operation → Bool
  | .Read (.error _) => true
  | .Read (.ok bytes) => bytes.isEmpty
  | .Write _ failure => failure.isSome
  | .Flush failure => failure.isSome

def gotBytes (operations : List Operation) : List UInt8 := operations.flatMap Operation.got

def putBytes (operations : List Operation) : List UInt8 := operations.flatMap Operation.put

/-- What was written before the latest flush. -/
def flushedBytes (operations : List Operation) : List UInt8 :=
  putBytes (operations.rdropWhile fun operation => !operation.flushes)

/-- The operation is a read. -/
def Operation.isRead : Operation → Bool
  | .Read _ => true
  | _ => false

/-- The operations are what two connections come to when they are done on them in
    this order, and the second is left as it is at the end. -/
inductive Performed {U D : Type} (reads : Reads U) (writes : Writes D) : U → D → List Operation → D → Prop
  | nothing (upstream : U) (downstream : D) : Performed reads writes upstream downstream [] downstream
  | read {upstream after : U} {downstream final : D} {bytes : List UInt8} {more : List Operation}
      (is : reads upstream = .ok (bytes,after)) (rest : Performed reads writes after downstream more final) :
    Performed reads writes upstream downstream (.Read (.ok bytes) :: more) final
  | unread {upstream : U} {downstream final : D} {error : IoError} {more : List Operation} (is : reads upstream = .error error)
      (rest : Performed reads writes upstream downstream more final) :
    Performed reads writes upstream downstream (.Read (.error error) :: more) final
  | write {upstream : U} {downstream after final : D} {bytes : List UInt8} {failure : Option IoError} {more : List Operation}
      (is : writes.writeAll downstream bytes = (after,failure)) (rest : Performed reads writes upstream after more final) :
    Performed reads writes upstream downstream (.Write bytes failure :: more) final
  | flush {upstream : U} {downstream after final : D} {failure : Option IoError} {more : List Operation}
      (is : writes.flush downstream = (after,failure)) (rest : Performed reads writes upstream after more final) :
    Performed reads writes upstream downstream (.Flush failure :: more) final

/-- Before each read everything read so far is written and flushed and no side
    has ended; the loop has returned exactly where a side has ended, and does
    nothing after that. -/
structure AsItArrives (operations : List Operation) (returned : Bool) : Prop where
  delivered : ∀ before result after, operations = before ++ .Read result :: after →
    putBytes before = gotBytes before ∧ flushedBytes before = gotBytes before ∧ ∀ operation ∈ before, operation.ends = false
  returns : returned = true ↔ ∃ operation ∈ operations, operation.ends = true
  last : ∀ before operation after, operations = before ++ operation :: after → operation.ends = true → after = []

/-- A turn that goes well. -/
def turnOf (chunk : List UInt8) : List Operation := [.Read (.ok chunk),.Write chunk none,.Flush none]

/-- A turn in which a side ends. -/
inductive Final : List Operation → Prop
  | fails (error : IoError) : Final [.Read (.error error)]
  | ended : Final [.Read (.ok [])]
  | refuses (chunk : List UInt8) (error : IoError) (filled : chunk ≠ []) : Final [.Read (.ok chunk),.Write chunk (some error)]
  | hangs (chunk : List UInt8) (error : IoError) (filled : chunk ≠ []) :
    Final [.Read (.ok chunk),.Write chunk none,.Flush (some error)]

section Shape
variable {U D : Type} {reads : Reads U} {writes : Writes D}

/-- Turns that go well, and at the end one that does not, if the loop has
    returned. -/
theorem copyTurns_shape (reads : Reads U) (writes : Writes D) (turns : ℕ) (upstream : U) (downstream : D) :
    ∃ (chunks : List (List UInt8)) (last : List Operation), (copyTurns reads writes turns upstream downstream).1 = (chunks.map turnOf).flatten ++ last ∧
      (∀ chunk ∈ chunks, chunk ≠ []) ∧
      ((copyTurns reads writes turns upstream downstream).2.2 = false ∧ last = [] ∧ chunks.length = turns ∨
        (copyTurns reads writes turns upstream downstream).2.2 = true ∧ Final last) := by
  induction turns generalizing upstream downstream with
  | zero => exact ⟨[],[],rfl,by simp,.inl ⟨rfl,rfl,rfl⟩⟩
  | succ turns ih =>
    rw [copyTurns]
    rcases reads upstream with error | ⟨read,upstream⟩
    · exact ⟨[],_,rfl,by simp,.inr ⟨rfl,.fails error⟩⟩
    dsimp only
    by_cases ended : read.length = 0
    · rw [if_pos ended]
      rw [List.length_eq_zero_iff] at ended
      subst ended
      exact ⟨[],_,rfl,by simp,.inr ⟨rfl,.ended⟩⟩
    have filled : read ≠ [] := fun empty => ended (by rw [empty,List.length_nil])
    rw [if_neg ended]
    rcases writes.writeAll downstream read with ⟨downstream,_ | error⟩
    · dsimp only
      rcases writes.flush downstream with ⟨downstream,_ | error⟩
      · obtain ⟨chunks,last,shape,all,ends⟩ := ih upstream downstream
        refine ⟨read :: chunks,last,?_,?_,?_⟩
        · dsimp only
          rw [shape]
          rfl
        · intro chunk member
          rcases List.mem_cons.mp member with rfl | member
          · exact filled
          · exact all chunk member
        · rcases ends with ⟨open_,none,count⟩ | closed
          · exact .inl ⟨open_,none,by rw [List.length_cons,count]⟩
          · exact .inr closed
      · exact ⟨[],_,rfl,by simp,.inr ⟨rfl,.hangs read error filled⟩⟩
    · exact ⟨[],_,rfl,by simp,.inr ⟨rfl,.refuses read error filled⟩⟩

/-- What is written down is what the connections came to. -/
theorem copyTurns_performed (reads : Reads U) (writes : Writes D) (turns : ℕ) (upstream : U) (downstream : D) :
    Performed reads writes upstream downstream (copyTurns reads writes turns upstream downstream).1
      (copyTurns reads writes turns upstream downstream).2.1 := by
  induction turns generalizing upstream downstream with
  | zero => exact .nothing upstream downstream
  | succ turns ih =>
    rw [copyTurns]
    rcases result : reads upstream with error | ⟨read,after⟩
    · exact .unread result (.nothing ..)
    dsimp only
    by_cases ended : read.length = 0
    · rw [if_pos ended]
      exact .read result (.nothing ..)
    rw [if_neg ended]
    rcases written : writes.writeAll downstream read with ⟨sink,_ | error⟩
    · dsimp only
      rcases flushed : writes.flush sink with ⟨last,_ | error⟩
      · exact .read result (.write written (.flush flushed (ih after last)))
      · exact .read result (.write written (.flush flushed (.nothing ..)))
    · exact .read result (.write written (.nothing ..))

/-- A loop that has returned does nothing more. -/
theorem copyTurns_returned {turns : ℕ} (more : ℕ) {upstream : U} {downstream : D}
    (returned : (copyTurns reads writes turns upstream downstream).2.2 = true) :
    copyTurns reads writes (turns + more) upstream downstream = copyTurns reads writes turns upstream downstream := by
  induction turns generalizing upstream downstream with
  | zero => cases returned
  | succ turns ih =>
    rw [Nat.add_right_comm,copyTurns]
    rw [copyTurns] at returned ⊢
    rcases result : reads upstream with error | ⟨read,after⟩
    · rfl
    · simp only [result] at returned ⊢
      by_cases ended : read.length = 0
      · rw [if_pos ended,if_pos ended]
      rw [if_neg ended] at returned ⊢
      rw [if_neg ended]
      rcases written : writes.writeAll downstream read with ⟨sink,_ | error⟩
      · simp only [written] at returned ⊢
        rcases flushed : writes.flush sink with ⟨sink,_ | error⟩
        · simp only [flushed] at returned ⊢
          rw [ih returned]
        · rfl
      · rfl

end Shape

/-- A read comes after whole turns that went well. -/
theorem turns_before {chunks : List (List UInt8)} {last before after : List Operation} {result : Except IoError (List UInt8)}
    (tail : last = [] ∨ Final last) (split : (chunks.map turnOf).flatten ++ last = before ++ .Read result :: after) :
    ∃ done, done <+: chunks ∧ before = (done.map turnOf).flatten := by
  induction chunks generalizing before with
  | nil =>
    refine ⟨[],List.nil_prefix,?_⟩
    rw [List.map_nil,List.flatten_nil,List.nil_append] at split
    -- The only read of the last turn is its first operation.
    rcases before with _ | ⟨first,_ | ⟨second,_ | ⟨third,before⟩⟩⟩
    · rfl
    · rcases tail with rfl | (_ | _ | _ | _) <;> simp at split
    · rcases tail with rfl | (_ | _ | _ | _) <;> simp at split
    · rcases tail with rfl | (_ | _ | _ | _) <;> simp at split
  | cons chunk chunks ih =>
    have shape : ((chunk :: chunks).map turnOf).flatten ++ last =
        .Read (.ok chunk) :: .Write chunk none :: .Flush none :: ((chunks.map turnOf).flatten ++ last) := rfl
    rw [shape] at split
    rcases before with _ | ⟨first,_ | ⟨second,_ | ⟨third,before⟩⟩⟩
    · exact ⟨[],List.nil_prefix,rfl⟩
    · simp at split
    · simp at split
    · simp only [List.cons_append,List.cons.injEq] at split
      obtain ⟨rfl,rfl,rfl,split⟩ := split
      obtain ⟨done,part,rfl⟩ := ih split
      exact ⟨chunk :: done,(List.prefix_cons_inj chunk).mpr part,rfl⟩

theorem put_turns (chunks : List (List UInt8)) : putBytes (chunks.map turnOf).flatten = chunks.flatten := by
  induction chunks with
  | nil => rfl
  | cons chunk chunks ih =>
    have shape : putBytes ((chunk :: chunks).map turnOf).flatten = chunk ++ putBytes (chunks.map turnOf).flatten := by
      simp [putBytes,turnOf,Operation.put]
    rw [shape,ih,List.flatten_cons]

theorem got_turns (chunks : List (List UInt8)) : gotBytes (chunks.map turnOf).flatten = chunks.flatten := by
  induction chunks with
  | nil => rfl
  | cons chunk chunks ih =>
    have shape : gotBytes ((chunk :: chunks).map turnOf).flatten = chunk ++ gotBytes (chunks.map turnOf).flatten := by
      simp [gotBytes,turnOf,Operation.got]
    rw [shape,ih,List.flatten_cons]

/-- After whole turns nothing is left to flush. -/
theorem flushed_turns (chunks : List (List UInt8)) : flushedBytes (chunks.map turnOf).flatten = chunks.flatten := by
  induction chunks using List.reverseRecOn with
  | nil => rfl
  | append_singleton chunks chunk _ =>
    have shape : ((chunks ++ [chunk]).map turnOf).flatten =
        ((chunks.map turnOf).flatten ++ [.Read (.ok chunk),.Write chunk none]) ++ [.Flush none] := by
      simp [turnOf]
    rw [flushedBytes,shape,List.rdropWhile_concat_neg _ _ _ (by simp [Operation.flushes]),← shape,put_turns]

theorem turns_open {chunks : List (List UInt8)} (filled : ∀ chunk ∈ chunks, chunk ≠ []) :
    ∀ operation ∈ (chunks.map turnOf).flatten, operation.ends = false := by
  intro operation member
  obtain ⟨turn,inside,here⟩ := List.mem_flatten.mp member
  obtain ⟨chunk,there,rfl⟩ := List.mem_map.mp inside
  have nonempty := filled chunk there
  simp only [turnOf,List.mem_cons,List.not_mem_nil,or_false] at here
  rcases here with rfl | rfl | rfl
  · simp [Operation.ends,nonempty]
  · rfl
  · rfl

/-- Each turn that goes well reads once. -/
theorem reads_turns (chunks : List (List UInt8)) : ((chunks.map turnOf).flatten.filter Operation.isRead).length = chunks.length := by
  induction chunks with
  | nil => rfl
  | cons chunk chunks ih =>
    have shape : ((chunk :: chunks).map turnOf).flatten.filter Operation.isRead =
        .Read (.ok chunk) :: (chunks.map turnOf).flatten.filter Operation.isRead := rfl
    rw [shape,List.length_cons,List.length_cons,ih]

/-- The last turn ends with its last operation, and not before. -/
theorem Final.ends {last : List Operation} (final : Final last) :
    ∃ early operation, last = early ++ [operation] ∧ operation.ends = true ∧ ∀ other ∈ early, other.ends = false := by
  cases final with
  | fails error => exact ⟨[],_,rfl,rfl,by simp⟩
  | ended => exact ⟨[],_,rfl,rfl,by simp⟩
  | refuses chunk error filled => exact ⟨[.Read (.ok chunk)],_,rfl,rfl,by simp [Operation.ends,filled]⟩
  | hangs chunk error filled => exact ⟨[.Read (.ok chunk),.Write chunk none],_,rfl,rfl,by simp [Operation.ends,filled]⟩

/-- Where only the last of some operations ends a side, nothing comes after the
    one that does. -/
theorem last_of_split {early before after : List Operation} {last operation : Operation}
    (open_ : ∀ other ∈ early, other.ends = false) (split : early ++ [last] = before ++ operation :: after)
    (ends : operation.ends = true) : after = [] := by
  by_contra more
  obtain ⟨rest,final,rfl⟩ : ∃ rest final, after = rest ++ [final] :=
    ⟨_,_,(List.dropLast_append_getLast more).symm⟩
  have regrouped : before ++ operation :: (rest ++ [final]) = (before ++ operation :: rest) ++ [final] := by simp
  rw [regrouped] at split
  obtain ⟨same,_⟩ := List.append_inj' split rfl
  have closed := open_ operation (by rw [same]; simp)
  rw [ends] at closed
  cases closed

/-- Whatever the two connections do, the loop passes on what it reads before it
    reads on. -/
theorem copyTurns_arrives {U D : Type} (reads : Reads U) (writes : Writes D) (turns : ℕ) (upstream : U) (downstream : D) :
    AsItArrives (copyTurns reads writes turns upstream downstream).1 (copyTurns reads writes turns upstream downstream).2.2 := by
  obtain ⟨chunks,last,shape,filled,ends⟩ := copyTurns_shape reads writes turns upstream downstream
  have open_ := turns_open filled
  rw [shape]
  constructor
  · intro before result after split
    have tail : last = [] ∨ Final last := ends.imp (fun none => none.2.1) And.right
    obtain ⟨done,part,rfl⟩ := turns_before tail split
    refine ⟨by rw [put_turns,got_turns],by rw [flushed_turns,got_turns],?_⟩
    exact turns_open fun chunk member => filled chunk (part.subset member)
  · rcases ends with ⟨going,rfl,_⟩ | ⟨returned,final⟩
    · rw [going,List.append_nil]
      refine ⟨fun absurdly => (Bool.noConfusion absurdly),?_⟩
      rintro ⟨operation,member,closes⟩
      rw [open_ operation member] at closes
      cases closes
    · obtain ⟨early,operation,rfl,closes,_⟩ := final.ends
      exact ⟨fun _ => ⟨operation,by simp,closes⟩,fun _ => returned⟩
  · intro before operation after split closes
    rcases ends with ⟨_,rfl,_⟩ | ⟨_,final⟩
    · rw [List.append_nil] at split
      have still := open_ operation (by rw [split]; simp)
      rw [closes] at still
      cases still
    · obtain ⟨early,one,rfl,_,quiet⟩ := final.ends
      rw [← List.append_assoc] at split
      refine last_of_split (fun other member => ?_) split closes
      rcases List.mem_append.mp member with inside | inside
      · exact open_ other inside
      · exact quiet other inside

/-- What the loop is, over two connections: it does what it writes down, passes on
    what it reads before it reads on, and reads once in each turn until it has
    returned, which it does where a side ends, and for good. -/
structure CopiesAsItArrives {U D : Type} (reads : Reads U) (writes : Writes D) (turns : ℕ) (upstream : U) (downstream : D) :
    Prop where
  performed : Performed reads writes upstream downstream (copyTurns reads writes turns upstream downstream).1
    (copyTurns reads writes turns upstream downstream).2.1
  arrives : AsItArrives (copyTurns reads writes turns upstream downstream).1 (copyTurns reads writes turns upstream downstream).2.2
  each : (copyTurns reads writes turns upstream downstream).2.2 = false →
    ((copyTurns reads writes turns upstream downstream).1.filter Operation.isRead).length = turns
  returned : (copyTurns reads writes turns upstream downstream).2.2 = true → ∀ more,
    copyTurns reads writes (turns + more) upstream downstream = copyTurns reads writes turns upstream downstream

theorem copyTurns_copies {U D : Type} (reads : Reads U) (writes : Writes D) (turns : ℕ) (upstream : U) (downstream : D) :
    CopiesAsItArrives reads writes turns upstream downstream where
  performed := copyTurns_performed reads writes turns upstream downstream
  arrives := copyTurns_arrives reads writes turns upstream downstream
  each going := by
    obtain ⟨chunks,last,shape,_,ends⟩ := copyTurns_shape reads writes turns upstream downstream
    rcases ends with ⟨_,rfl,count⟩ | ⟨returned,_⟩
    · rw [shape,List.append_nil,reads_turns,count]
    · rw [going] at returned
      cases returned
  returned returned more := copyTurns_returned more returned

/-! ## The sockets of a relay -/

/-- The connection to the child: the bytes it will send, in pieces of any
    size. -/
def socketReads (arrives : ℕ → ℕ) : Reads (ℕ × Source) := fun (turn,source) =>
  (source.readSome (arrives turn) BUFFER).map fun (read,rest) => (read,(turn + 1,rest))

/-- The connection to the caller; what is written on it is on its way. -/
def socketWrites : Writes Sink := ⟨Sink.writeAll,fun sink => (sink,none)⟩

/-- Over sockets that end, the loop returns with what the caller was sent. -/
theorem copyTurns_response (arrives : ℕ → ℕ) (turn : ℕ) (upstream : Source) (downstream : Sink) (turns : ℕ)
    (enough : upstream.bytes.length < turns) :
    (copyTurns (socketReads arrives) socketWrites turns (turn,upstream) downstream).2 =
      (copyResponse arrives turn upstream downstream,true) := by
  induction turns generalizing turn upstream downstream with
  | zero => omega
  | succ turns ih =>
    rw [copyTurns]
    by_cases ended : upstream.bytes = []
    · have reads := readSome_ended ended (arrives turn) BUFFER
      rw [copyResponse_ended arrives turn downstream ended]
      cases failure : upstream.failure with
      | some error =>
        have fails : socketReads arrives (turn,upstream) = .error error := by simp [socketReads,reads,failure,Except.map]
        rw [fails]
      | none =>
        have stops : socketReads arrives (turn,upstream) = .ok ([],(turn + 1,upstream)) := by
          simp [socketReads,reads,failure,Except.map]
        rw [stops]
        rfl
    · obtain ⟨read,rest,reads,whole,_,some,_⟩ := readSome_filled (arrives turn) ended (by decide : 0 < BUFFER)
      have moves : socketReads arrives (turn,upstream) = .ok (read,(turn + 1,rest)) := by
        simp [socketReads,reads,Except.map]
      have shorter : rest.bytes.length < turns := by
        rw [whole,List.length_append] at enough
        omega
      rw [moves,copyResponse_reads downstream reads some]
      dsimp only
      rw [if_neg (Nat.pos_iff_ne_zero.mp some)]
      have written : socketWrites.writeAll downstream read = downstream.writeAll read := rfl
      rw [written]
      rcases downstream.writeAll read with ⟨sink,_ | error⟩
      · exact ih (turn + 1) rest sink shorter
      · rfl

/-! ## The body -/

/-- Whatever sizes the body arrives in, the child is sent what writing its
    declared length at once would have sent it. -/
theorem forwardFrom_sink (arrives : ℕ → ℕ) (turn remaining : ℕ) (reader : Source) (upstream : Sink) :
    (forwardFrom arrives turn remaining reader upstream).2.1 = (upstream.writeAll (reader.bytes.take remaining)).1 := by
  have nothing (sink : Sink) : (sink.writeAll []).1 = sink := by
    rcases sink with ⟨written,_ | ⟨room,error⟩⟩ <;> simp [Sink.writeAll]
  induction remaining using Nat.strong_induction_on generalizing turn reader upstream with
  | _ remaining ih =>
    rcases forwardFrom_step arrives turn remaining reader upstream with
      ⟨rfl,is⟩ | ⟨_,ended,is⟩ | ⟨read,rest,some,bound,split,_,is⟩
    · rw [is,List.take_zero,nothing]
    · rw [is,ended,List.take_nil,nothing]
    · have parts : reader.bytes.take remaining = read ++ rest.bytes.take (remaining - read.length) := by
        rw [split,List.take_append,List.take_of_length_le bound]
      rw [is,parts,writeAll_append]
      rcases upstream.writeAll read with ⟨after,_ | error⟩
      · exact ih (remaining - read.length) (by omega) (turn + 1) rest after
      · rfl

/-- What is left to read begins at the declared length or before it. -/
theorem forwardFrom_left (arrives : ℕ → ℕ) (turn remaining : ℕ) (reader : Source) (upstream : Sink) :
    ∃ taken, reader.bytes = taken ++ (forwardFrom arrives turn remaining reader upstream).1.bytes ∧ taken.length ≤ remaining := by
  induction remaining using Nat.strong_induction_on generalizing turn reader upstream with
  | _ remaining ih =>
    rcases forwardFrom_step arrives turn remaining reader upstream with
      ⟨rfl,is⟩ | ⟨_,ended,is⟩ | ⟨read,rest,some,bound,split,_,is⟩
    · exact ⟨[],by rw [is]; rfl,le_rfl⟩
    · exact ⟨[],by rw [is]; rfl,Nat.zero_le _⟩
    · rw [is]
      rcases upstream.writeAll read with ⟨after,_ | error⟩
      · obtain ⟨taken,later,fewer⟩ := ih (remaining - read.length) (by omega) (turn + 1) rest after
        refine ⟨read ++ taken,by rw [split,later,List.append_assoc],?_⟩
        rw [List.length_append]
        omega
      · exact ⟨read,split,bound⟩

/-- The body goes to the child as far as it was declared and is there, and
    nothing after it is touched. -/
structure ForwardsExactly (arrives : ℕ → ℕ) (head : Head) (reader : Source) (upstream : Sink) : Prop where
  /-- A child that takes it all is sent the first bytes, as many as were
      declared and are there. -/
  written : upstream.Takes (min head.bodyBytes reader.bytes.length) →
    (forwardBody arrives head reader upstream).2.1.written =
      upstream.written ++ reader.bytes.take (min head.bodyBytes reader.bytes.length)
  /-- Any child is sent what it would take of them in one piece. -/
  taken : (forwardBody arrives head reader upstream).2.1 =
    (upstream.writeAll (reader.bytes.take (min head.bodyBytes reader.bytes.length))).1
  left : ∃ consumed, reader.bytes = consumed ++ (forwardBody arrives head reader upstream).1.bytes ∧
    consumed.length ≤ head.bodyBytes

theorem take_min (n : ℕ) (bytes : List UInt8) : bytes.take (min n bytes.length) = bytes.take n := by
  rcases le_total n bytes.length with within | beyond
  · rw [min_eq_left within]
  · rw [min_eq_right beyond,List.take_length,List.take_of_length_le beyond]

theorem forwardBody_exact (arrives : ℕ → ℕ) (head : Head) (reader : Source) (upstream : Sink) :
    ForwardsExactly arrives head reader upstream where
  written takes := by
    rw [take_min]
    exact ((forwardFrom_spec arrives 0 head.bodyBytes reader upstream).2 takes).2
  taken := by
    rw [take_min]
    exact forwardFrom_sink arrives 0 head.bodyBytes reader upstream
  left := forwardFrom_left arrives 0 head.bodyBytes reader upstream

/-- What a relay sends its caller is what the loop has written when it returns. -/
theorem run_copies (arrives answers : ℕ → ℕ) (head : Head) (child : Child) (body : Option (List UInt8)) (reader : Source)
    (relays : (run arrives answers head child body reader).failure = none) {turns : ℕ}
    (enough : child.peer.answers.bytes.length < turns) :
    (copyTurns (socketReads answers) socketWrites turns (0,child.peer.answers) ⟨[],none⟩).2 =
      (⟨(run arrives answers head child body reader).downstream,none⟩,true) := by
  rw [copyTurns_response answers 0 child.peer.answers ⟨[],none⟩ turns enough,copyResponse_all,
    (run_spec arrives answers head child body reader).2.1 relays]
  rfl

/-- The relay moves exactly the bytes it was given, as they arrive: the body up
    to its declared length, and of the response everything read before the next
    read, over any two connections, as over the two sockets of a relay. -/
theorem relay_moves_exactly :
    (∀ arrives head reader upstream, ForwardsExactly arrives head reader upstream) ∧
    (∀ (U D : Type) (reads : Reads U) (writes : Writes D) (turns : ℕ) (upstream : U) (downstream : D),
      CopiesAsItArrives reads writes turns upstream downstream) ∧
    ∀ arrives answers head child body reader, (run arrives answers head child body reader).failure = none →
      ∀ turns, child.peer.answers.bytes.length < turns →
        (copyTurns (socketReads answers) socketWrites turns (0,child.peer.answers) ⟨[],none⟩).2 =
          (⟨(run arrives answers head child body reader).downstream,none⟩,true) :=
  ⟨forwardBody_exact,fun _ _ => copyTurns_copies,
    fun arrives answers head child body reader relays _ enough => run_copies arrives answers head child body reader relays enough⟩

end Maestro.Proxy
