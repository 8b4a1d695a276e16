import HotBatch.Foundation.Str
import HotBatch.Scheduler.Machine

/-!
# Starting the server

`ServeArgs::validate` and `build_app`, which wires the limits of the command line into the HTTP layer
and into one of the two engines. Loading the tokenizer and the weights is outside the repository, so
`build_app` takes whatever `SmallTransformer::load` returns; the metrics registry and the router are
left out.

The host is parsed like `IpAddr::from_str`: the readers below take a prefix of the input or nothing.
-/

namespace HotBatch

/-! ## Addresses -/

inductive IpAddr where
  | v4 (octets : List ℕ)
  | v6 (segments : List ℕ)
  deriving DecidableEq

namespace IpAddr

/-- `char::to_digit`. -/
def toDigit (radix : ℕ) (c : Char) : Option ℕ :=
  let digit :=
    if '0' ≤ c ∧ c ≤ '9' then some (c.toNat - '0'.toNat)
    else if 'a' ≤ c ∧ c ≤ 'z' then some (c.toNat - 'a'.toNat + 10)
    else if 'A' ≤ c ∧ c ≤ 'Z' then some (c.toNat - 'A'.toNat + 10)
    else none
  digit.filter fun value ↦ value < radix

def readNumber (radix maxDigits bound : ℕ) (allowZeroPrefix : Bool) (input : Str) :
    Option (ℕ × Str) :=
  let digits := input.takeWhile fun c ↦ (toDigit radix c).isSome
  let value := digits.foldl (fun value c ↦ value * radix + (toDigit radix c).getD 0) 0
  if digits.isEmpty || decide (maxDigits < digits.length) ||
      (!allowZeroPrefix && digits.head? == some '0' && decide (1 < digits.length)) ||
      decide (bound ≤ value) then none
  else some (value, input.drop digits.length)

/-- All but the first of a list are preceded by the separator. -/
def readSeparator {β : Type} (separator : Char) (index : ℕ) (inner : Str → Option (β × Str))
    (input : Str) : Option (β × Str) :=
  if index = 0 then inner input
  else
    match input with
    | [] => none
    | c :: rest => if c = separator then inner rest else none

def readOctets : ℕ → ℕ → Str → Option (List ℕ × Str)
  | 0, _, input => some ([], input)
  | count + 1, index, input => do
      let (octet, rest) ← readSeparator '.' index (readNumber 10 3 256 false) input
      let (octets, rest) ← readOctets count (index + 1) rest
      pure (octet :: octets, rest)

def readIpv4Addr (input : Str) : Option (List ℕ × Str) := readOctets 4 0 input

def octetPairs : List ℕ → List ℕ
  | high :: low :: rest => (high * 256 + low) :: octetPairs rest
  | _ => []

/-- The groups, whether they end with an embedded IPv4 address, and the rest. Such an address takes
the place of two groups. -/
def readGroups : ℕ → ℕ → Str → List ℕ × Bool × Str
  | 0, _, input => ([], false, input)
  | remaining + 1, index, input =>
      match if remaining = 0 then none else readSeparator ':' index readIpv4Addr input with
      | some (octets, rest) => (octetPairs octets, true, rest)
      | none =>
          match readSeparator ':' index (readNumber 16 4 65536 true) input with
          | none => ([], false, input)
          | some (group, rest) =>
              let (groups, ipv4, rest) := readGroups remaining (index + 1) rest
              (group :: groups, ipv4, rest)

def readIpv6Addr (input : Str) : Option (List ℕ × Str) :=
  let (head, headIpv4, rest) := readGroups 8 0 input
  if head.length = 8 then some (head, rest)
  else if headIpv4 then none
  else
    match rest with
    | ':' :: ':' :: rest =>
        let (tail, _, rest) := readGroups (8 - (head.length + 1)) 0 rest
        some (head ++ List.replicate (8 - head.length - tail.length) 0 ++ tail, rest)
    | _ => none

/-- `str::parse::<IpAddr>`. -/
def parse (text : String) : Option IpAddr :=
  let input := text.toList
  let result := ((readIpv4Addr input).map fun (octets, rest) ↦ (v4 octets, rest)).or
    ((readIpv6Addr input).map fun (segments, rest) ↦ (v6 segments, rest))
  match result with
  | some (addr, []) => some addr
  | _ => none

example : parse "127.0.0.1" = some (.v4 [127, 0, 0, 1]) := by decide +kernel

example : parse "::ffff:1.2.3.4" = some (.v6 [0, 0, 0, 0, 0, 0xffff, 0x102, 0x304]) := by
  decide +kernel

example : parse "localhost" = none := by decide +kernel

end IpAddr

/-! ## The command line -/

/-- `normalize_model_name`. -/
def normalizeModelName (model : String) : Except String String :=
  if model = "gpt2" ∨ model = "openai-community/gpt2" then .ok "gpt2"
  else if model = "tiny-gpt2" ∨ model = "tiny-random-gpt2" ∨ model = "sshleifer/tiny-gpt2" ∨
      model = "hf-internal-testing/tiny-random-gpt2" then .ok "tiny-gpt2"
  else if model = "scripted" then .ok "scripted"
  else .error
    s!"unsupported model '{model}'; expected gpt2, openai-community/gpt2, or a tiny GPT-2 alias"

inductive ServeMode where
  | naive
  | continuous
  deriving DecidableEq

structure ServeArgs where
  host : String
  port : UInt16
  mode : ServeMode
  model : String
  device : String
  maxRunningSeqs : ℕ
  maxQueueDepth : ℕ
  maxSeqLen : ℕ
  maxNewTokens : ℕ

def ServeArgs.validate (args : ServeArgs) : Except String Unit :=
  if args.maxRunningSeqs = 0 then .error "--max-running-seqs must be greater than zero"
  else if args.maxQueueDepth = 0 then .error "--max-queue-depth must be greater than zero"
  else if args.maxSeqLen = 0 then .error "--max-seq-len must be greater than zero"
  else if args.maxNewTokens = 0 then .error "--max-new-tokens must be greater than zero"
  else if args.maxSeqLen ≤ args.maxNewTokens then
    .error "--max-new-tokens must be less than --max-seq-len"
  else if 1024 < args.maxSeqLen then
    .error "--max-seq-len cannot exceed GPT-2's 1024-token context window"
  else
    match normalizeModelName args.model with
    | .error err => .error err
    | .ok modelName =>
        if modelName = "scripted" then
          .error "unsupported model 'scripted'; hotbatch serves GPT-2 models only"
        else if args.device ≠ "cpu" then
          .error s!"unsupported device '{args.device}'; hotbatch supports cpu only"
        else if (IpAddr.parse args.host).isNone then
          .error s!"invalid --host '{args.host}': expected an IP address"
        else .ok ()

/-- What the command line promises about its limits. -/
structure ServeArgs.Valid (args : ServeArgs) : Prop where
  running_pos : 0 < args.maxRunningSeqs
  depth_pos : 0 < args.maxQueueDepth
  newTokens_pos : 0 < args.maxNewTokens
  newTokens_lt : args.maxNewTokens < args.maxSeqLen
  seqLen_le : args.maxSeqLen ≤ 1024

/-- A check that was passed. -/
theorem ServeArgs.passed {failed : Prop} [Decidable failed] {err : String} {rest : Except String Unit}
    (hvalidate : (if failed then .error err else rest) = .ok ()) : ¬ failed ∧ rest = .ok () := by
  by_cases hfailed : failed
  · rw [if_pos hfailed] at hvalidate
    cases hvalidate
  · rw [if_neg hfailed] at hvalidate
    exact ⟨hfailed, hvalidate⟩

theorem ServeArgs.valid_of_validate {args : ServeArgs} (hvalidate : args.validate = .ok ()) :
    args.Valid := by
  unfold validate at hvalidate
  obtain ⟨hrunning, hvalidate⟩ := passed hvalidate
  obtain ⟨hdepth, hvalidate⟩ := passed hvalidate
  obtain ⟨-, hvalidate⟩ := passed hvalidate
  obtain ⟨hnew, hvalidate⟩ := passed hvalidate
  obtain ⟨hless, hvalidate⟩ := passed hvalidate
  obtain ⟨hcontext, -⟩ := passed hvalidate
  exact ⟨Nat.pos_of_ne_zero hrunning, Nat.pos_of_ne_zero hdepth, Nat.pos_of_ne_zero hnew,
    Nat.not_le.mp hless, Nat.not_lt.mp hcontext⟩

/-! ## The application -/

/-- The tokenizer as the server uses it. Both ways between texts and tokens are the library's. -/
structure TokenizerBundle where
  modelName : String
  eosToken : Token
  encode : Str → Except String (List Token)

/-- The tokenizer makes tokens of the model's vocabulary. -/
def TokenizerBundle.Speaks {α : Type} (tokenizer : TokenizerBundle) (model : SmallTransformer α) :
    Prop :=
  ∀ text tokens, tokenizer.encode text = .ok tokens → ∀ token ∈ tokens, token.toNat < model.vocabSize

/-- What `SmallTransformer::load` returns. -/
structure Loaded (α : Type) where
  model : SmallTransformer α
  tokenizer : TokenizerBundle

/-- An engine with its private parts as `build_app` makes them. -/
inductive Engine (α : Type) where
  | continuous (scheduler : Scheduler α) (kvCache : SlabKvCache (KvTensor α)) (maxQueueDepth : ℕ)
  | naive (model : SmallTransformer α) (maxQueueDepth : ℕ)

structure AppState (α : Type) where
  engine : Engine α
  tokenizer : TokenizerBundle
  modelName : String
  maxNewTokens : ℕ
  maxSeqLen : ℕ

variable {α : Type}

/-- The engine for the mode of the command line. -/
def buildEngine (args : ServeArgs) (model : SmallTransformer α) : Engine α :=
  match args.mode with
  | .continuous =>
      .continuous
        { config :=
            { maxRunningSeqs := args.maxRunningSeqs
              maxNewTokens := args.maxNewTokens
              maxSeqLen := args.maxSeqLen }
          model := model }
        (.new args.maxRunningSeqs args.maxSeqLen model.kvShape.1 model.kvShape.2.1 model.kvShape.2.2)
        args.maxQueueDepth
  | .naive => .naive model args.maxQueueDepth

/-- `build_app`, up to the router. -/
def buildApp (load : String → String → Except String (Loaded α)) (args : ServeArgs) :
    Except String (AppState α) :=
  match args.validate with
  | .error err => .error err
  | .ok () =>
      match load args.model args.device with
      | .error err => .error err
      | .ok loaded =>
          if loaded.model.maxPositions < args.maxSeqLen then
            .error s!"--max-seq-len cannot exceed the loaded model's {loaded.model.maxPositions}-token context window"
          else .ok
            { engine := buildEngine args loaded.model
              tokenizer := loaded.tokenizer
              modelName := loaded.tokenizer.modelName
              maxNewTokens := args.maxNewTokens
              maxSeqLen := args.maxSeqLen }

/-- What the parts of an application have in common. -/
structure Wired (args : ServeArgs) (loaded : Loaded α) (app : AppState α) : Prop where
  valid : args.Valid
  engine_eq : app.engine = buildEngine args loaded.model
  tokenizer_eq : app.tokenizer = loaded.tokenizer
  maxNewTokens_eq : app.maxNewTokens = args.maxNewTokens
  maxSeqLen_eq : app.maxSeqLen = args.maxSeqLen
  seqLen_le_positions : args.maxSeqLen ≤ loaded.model.maxPositions

theorem wired_of_buildApp {load : String → String → Except String (Loaded α)} {args : ServeArgs}
    {app : AppState α} (hbuild : buildApp load args = .ok app) :
    ∃ loaded, load args.model args.device = .ok loaded ∧ Wired args loaded app := by
  unfold buildApp at hbuild
  cases hvalidate : args.validate with
  | error err =>
      rw [hvalidate] at hbuild
      cases hbuild
  | ok _ =>
      rw [hvalidate] at hbuild
      cases hload : load args.model args.device with
      | error err =>
          rw [hload] at hbuild
          cases hbuild
      | ok loaded =>
          rw [hload] at hbuild
          dsimp only at hbuild
          split_ifs at hbuild with hpositions
          obtain rfl := Except.ok.inj hbuild
          exact ⟨loaded, rfl, ServeArgs.valid_of_validate hvalidate, rfl, rfl, rfl, rfl,
            Nat.not_lt.mp hpositions⟩

end HotBatch
