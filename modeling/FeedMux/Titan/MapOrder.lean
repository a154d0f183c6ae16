import FeedMux.Titan.Fields

/-!
# The order of map entries (`src/titan_quote.rs`)

Maps arrive as lists of entries and are read by their first entry under a key.
Without duplicate keys the order of the entries says nothing: messages that
differ only in it are handled alike (`map_order`), as long as the scan for the
best route finds no tie.
-/

namespace FeedMux.Titan
open FeedMux.Library

/-- The second value is the first with the entries of its maps reordered, at any depth. -/
inductive Permuted : Value → Value → Prop
  | refl (v : Value) : Permuted v v
  | array {items items' : List Value} (h : List.Forall₂ Permuted items items') :
    Permuted (.array items) (.array items')
  | map {entries middle entries' : List (Value × Value)} (hp : entries.Perm middle)
    (hk : List.Forall₂ Permuted (middle.map Prod.fst) (entries'.map Prod.fst))
    (hv : List.Forall₂ Permuted (middle.map Prod.snd) (entries'.map Prod.snd)) :
    Permuted (.map entries) (.map entries')

/-- No map in the value has a key twice, at any depth. -/
inductive UniqueKeys : Value → Prop
  | leaf (v : Value) (hm : valueAsMap v = none) (ha : valueAsArray v = none) : UniqueKeys v
  | array (items : List Value) (h : ∀ v ∈ items, UniqueKeys v) : UniqueKeys (.array items)
  | map (entries : List (Value × Value)) (hn : (entries.map Prod.fst).Nodup)
    (hk : ∀ e ∈ entries, UniqueKeys e.1) (hv : ∀ e ∈ entries, UniqueKeys e.2) :
    UniqueKeys (.map entries)

/-- A value without duplicate keys and a reordering of it. -/
structure Same (v v' : Value) : Prop where
  perm : Permuted v v'
  unique : UniqueKeys v

/-! ## Readers of a single value -/

theorem Permuted.mapKeyStr_eq {v v' : Value} (h : Permuted v v') : mapKeyStr v = mapKeyStr v' := by
  cases h <;> rfl

theorem Permuted.valueAsU64_eq {v v' : Value} (h : Permuted v v') :
    valueAsU64 v = valueAsU64 v' := by
  cases h <;> rfl

theorem Permuted.valueAsString_eq {v v' : Value} (h : Permuted v v') :
    valueAsString v = valueAsString v' := by
  cases h <;> rfl

theorem Permuted.valueAsU32_eq {v v' : Value} (h : Permuted v v') :
    valueAsU32 v = valueAsU32 v' := by
  rw [valueAsU32, valueAsU32, h.valueAsU64_eq]

theorem mapM_valueAsU8_eq {items items' : List Value} (h : List.Forall₂ Permuted items items') :
    items.mapM valueAsU8 = items'.mapM valueAsU8 := by
  induction h with
  | nil => rfl
  | cons hv _ ih => rw [List.mapM_cons, List.mapM_cons, ih, valueAsU8, valueAsU8, hv.valueAsU64_eq]

theorem Permuted.pubkey_eq {v v' : Value} (h : Permuted v v') (bs58 : Bs58) :
    valueAsPubkeyBase58 bs58 v = valueAsPubkeyBase58 bs58 v' := by
  cases h with
  | refl => rfl
  | array h =>
    simp only [valueAsPubkeyBase58, pubkeyBytes, h.length_eq, mapM_valueAsU8_eq h]
  | map hp hk hv => rfl

/-! ## Maps -/

/-- The entries are a reordering of others that agree with them one by one. -/
structure SameEntries (entries entries' : List (Value × Value)) : Prop where
  nodup : (entries.map Prod.fst).Nodup
  aligned : ∃ middle, entries.Perm middle ∧
    List.Forall₂ (fun e e' => Permuted e.1 e'.1 ∧ Same e.2 e'.2) middle entries'

theorem aligned_of_columns {middle entries' : List (Value × Value)}
    (hk : List.Forall₂ Permuted (middle.map Prod.fst) (entries'.map Prod.fst))
    (hv : List.Forall₂ Permuted (middle.map Prod.snd) (entries'.map Prod.snd))
    (hu : ∀ e ∈ middle, UniqueKeys e.2) :
    List.Forall₂ (fun e e' => Permuted e.1 e'.1 ∧ Same e.2 e'.2) middle entries' := by
  induction middle generalizing entries' with
  | nil =>
    obtain rfl : entries' = [] := by simpa using hk
    exact .nil
  | cons e middle ih =>
    cases entries' with
    | nil => cases hk
    | cons e' entries' =>
      obtain ⟨hke, hk⟩ := List.forall₂_cons.mp hk
      obtain ⟨hve, hv⟩ := List.forall₂_cons.mp hv
      refine .cons ⟨hke, hve, hu e List.mem_cons_self⟩ (ih hk hv ?_)
      intro e'' he''
      exact hu e'' (List.mem_cons_of_mem _ he'')

/-- **Maps.** Values that are the same are both maps with the same entries, or neither is. -/
theorem Same.entries {v v' : Value} (h : Same v v') :
    Option.Rel SameEntries (valueAsMap v) (valueAsMap v') := by
  obtain ⟨hp, hu⟩ := h
  cases hu with
  | leaf _ hm ha =>
    cases hp with
    | refl =>
      rw [hm]
      exact .none
    | array hi => cases ha
    | map _ _ _ => cases hm
  | array items hi => cases hp <;> exact .none
  | map entries hn hk hv =>
    cases hp with
    | refl =>
      refine .some ⟨hn, entries, .refl _, List.forall₂_same.mpr ?_⟩
      intro e he
      exact ⟨.refl _, .refl _, hv e he⟩
    | map hperm hkeys hvals =>
      refine .some ⟨hn, _, hperm, aligned_of_columns hkeys hvals ?_⟩
      intro e he
      exact hv e (hperm.mem_iff.mpr he)

theorem string_of_mapKeyStr {key : Value} {name : String} (h : mapKeyStr key = some name) :
    key = .string (.valid name) := by
  cases key with
  | string s =>
    cases s with
    | valid text =>
      obtain rfl : text = name := Option.some.inj h
      rfl
    | invalid bytes => cases h
  | _ => cases h

/-- Without duplicate keys the first entry under a key is the only one. -/
theorem find_iff_mem {entries : List (Value × Value)} (hn : (entries.map Prod.fst).Nodup)
    {name : String} {e : Value × Value} :
    entries.find? (fun e => mapKeyStr e.1 == some name) = some e ↔
      e ∈ entries ∧ mapKeyStr e.1 = some name := by
  constructor
  · intro hf
    exact ⟨List.mem_of_find?_eq_some hf, by simpa using List.find?_some hf⟩
  · rintro ⟨hm, hk⟩
    cases hf : entries.find? fun e => mapKeyStr e.1 == some name with
    | none =>
      have hno := List.find?_eq_none.mp hf e hm
      rw [hk] at hno
      exact absurd (beq_self_eq_true _) hno
    | some found =>
      have hkey : mapKeyStr found.1 = some name := by simpa using List.find?_some hf
      have hfst : found.1 = e.1 := (string_of_mapKeyStr hkey).trans (string_of_mapKeyStr hk).symm
      rw [List.inj_on_of_nodup_map hn (List.mem_of_find?_eq_some hf) hm hfst]

theorem find_aligned {middle entries' : List (Value × Value)}
    (h : List.Forall₂ (fun e e' => Permuted e.1 e'.1 ∧ Same e.2 e'.2) middle entries')
    (name : String) :
    Option.Rel Same ((middle.find? fun e => mapKeyStr e.1 == some name).map Prod.snd)
      ((entries'.find? fun e => mapKeyStr e.1 == some name).map Prod.snd) := by
  induction h with
  | nil => exact .none
  | cons he _ ih =>
    rw [List.find?_cons, List.find?_cons, he.1.mapKeyStr_eq]
    split
    · exact .some he.2
    · exact ih

/-- **Look-ups.** They find the same in both values, or nothing. -/
theorem Same.lookup {v v' : Value} (h : Same v v') (name : String) :
    Option.Rel Same (mapGet v name) (mapGet v' name) := by
  have hentries := h.entries
  cases hm : valueAsMap v with
  | none =>
    cases hm' : valueAsMap v' with
    | none =>
      unfold mapGet
      rw [hm, hm']
      exact .none
    | some entries' =>
      rw [hm, hm'] at hentries
      cases hentries
  | some entries =>
    cases hm' : valueAsMap v' with
    | none =>
      rw [hm, hm'] at hentries
      cases hentries
    | some entries' =>
      rw [hm, hm'] at hentries
      cases hentries with
      | some hsame =>
        obtain ⟨middle, hp, ha⟩ := hsame.aligned
        have hfind : entries.find? (fun e => mapKeyStr e.1 == some name) =
            middle.find? fun e => mapKeyStr e.1 == some name := by
          refine Option.ext fun e => ?_
          rw [find_iff_mem hsame.nodup, find_iff_mem ((hp.map _).nodup_iff.mp hsame.nodup),
            hp.mem_iff]
        rw [mapGet_of_map hm, mapGet_of_map hm', hfind]
        exact find_aligned ha name

theorem mapContainsKey_eq (value : Value) (key : String) :
    mapContainsKey value key = (mapGet value key).isSome := by
  cases h : mapContainsKey value key with
  | false =>
    rw [not_mapContainsKey h]
    rfl
  | true =>
    unfold mapContainsKey at h
    cases hm : valueAsMap value with
    | none =>
      rw [hm] at h
      cases h
    | some entries =>
      rw [hm] at h
      obtain ⟨e, he, hk⟩ := List.any_eq_true.mp h
      rw [mapGet_of_map hm, Option.isSome_map, List.find?_isSome.mpr ⟨e, he, hk⟩]

/-! ## What is read off a value -/

section
variable {α α' β β' : Type*} {R : α → α' → Prop} {S : β → β' → Prop}

theorem rel_isSome {o : Option α} {o' : Option α'} (h : Option.Rel R o o') :
    o.isSome = o'.isSome := by
  cases h <;> rfl

theorem rel_bind {o : Option α} {o' : Option α'} {f : α → Option β} {f' : α' → Option β'}
    (h : Option.Rel R o o') (hf : ∀ a a', R a a' → Option.Rel S (f a) (f' a')) :
    Option.Rel S (o.bind f) (o'.bind f') := by
  cases h with
  | none => exact .none
  | some ha => exact hf _ _ ha

theorem rel_map {o : Option α} {o' : Option α'} {f : α → β} {f' : α' → β'}
    (h : Option.Rel R o o') (hf : ∀ a a', R a a' → S (f a) (f' a')) :
    Option.Rel S (o.map f) (o'.map f') := by
  cases h with
  | none => exact .none
  | some ha => exact .some (hf _ _ ha)

theorem bind_eq_of_rel {o : Option α} {o' : Option α'} {f : α → Option β} {f' : α' → Option β}
    (h : Option.Rel R o o') (hf : ∀ a a', R a a' → f a = f' a') : o.bind f = o'.bind f' := by
  cases h with
  | none => rfl
  | some ha => exact hf _ _ ha

theorem rel_or {o p : Option α} {o' p' : Option α'} (h : Option.Rel R o o')
    (h' : Option.Rel R p p') : Option.Rel R (o.or p) (o'.or p') := by
  cases h with
  | none => exact h'
  | some ha => exact .some ha

end

section
variable {v v' : Value}

theorem Same.containsKey (h : Same v v') (key : String) :
    mapContainsKey v key = mapContainsKey v' key := by
  rw [mapContainsKey_eq, mapContainsKey_eq, rel_isSome (h.lookup key)]

theorem Same.u64At (h : Same v v') (key : String) : u64At v key = u64At v' key :=
  bind_eq_of_rel (h.lookup key) fun _ _ h => h.perm.valueAsU64_eq

theorem Same.u32At (h : Same v v') (key : String) :
    (mapGet v key).bind valueAsU32 = (mapGet v' key).bind valueAsU32 :=
  bind_eq_of_rel (h.lookup key) fun _ _ h => h.perm.valueAsU32_eq

theorem Same.stringAt (h : Same v v') (key : String) :
    (mapGet v key).bind valueAsString = (mapGet v' key).bind valueAsString :=
  bind_eq_of_rel (h.lookup key) fun _ _ h => h.perm.valueAsString_eq

theorem Same.pubkeyAt (h : Same v v') (bs58 : Bs58) (key : String) :
    (mapGet v key).bind (valueAsPubkeyBase58 bs58) =
      (mapGet v' key).bind (valueAsPubkeyBase58 bs58) :=
  bind_eq_of_rel (h.lookup key) fun _ _ h => h.perm.pubkey_eq bs58

theorem Same.firstItem (h : Same v v') :
    Option.Rel Same ((valueAsArray v).bind List.head?) ((valueAsArray v').bind List.head?) := by
  obtain ⟨hp, hu⟩ := h
  cases hu with
  | leaf _ hm ha =>
    cases hp with
    | refl =>
      rw [ha]
      exact .none
    | array hi => cases ha
    | map _ _ _ => cases hm
  | map entries hn hk hv => cases hp <;> exact .none
  | array items hi =>
    cases hp with
    | refl =>
      cases items with
      | nil => exact .none
      | cons item items => exact .some ⟨.refl _, hi _ List.mem_cons_self⟩
    | array hitems =>
      cases hitems with
      | nil => exact .none
      | cons hitem _ => exact .some ⟨hitem, hi _ List.mem_cons_self⟩

theorem Same.firstStep (h : Same v v') : Option.Rel Same (firstStep v) (firstStep v') := by
  unfold Titan.firstStep
  rw [Option.bind_assoc, Option.bind_assoc]
  exact rel_bind (h.lookup "steps") fun _ _ h => h.firstItem

theorem Same.leg (h : Same v v') (bs58 : Bs58) :
    extractHop1Leg bs58 v = extractHop1Leg bs58 v' := by
  have hstep := h.firstStep
  unfold Titan.firstStep at hstep
  unfold extractHop1Leg
  generalize ((mapGet v "steps").bind valueAsArray).bind List.head? = first at hstep ⊢
  generalize ((mapGet v' "steps").bind valueAsArray).bind List.head? = first' at hstep ⊢
  cases hstep with
  | none => simp only [h.u64At]
  | some hfirst => simp only [hfirst.stringAt, hfirst.pubkeyAt, hfirst.u64At]

end

/-! ## The selected route -/

/-- A provider and a route that are the same in both messages. -/
def SameBest (best best' : String × Value) : Prop := best.1 = best'.1 ∧ Same best.2 best'.2

/-- An eligible entry of either message. -/
def SameEligible (x x' : String × Value × UInt64) : Prop :=
  x.1 = x'.1 ∧ Same x.2.1 x'.2.1 ∧ x.2.2 = x'.2.2

/-- Two eligible entries with the greatest amount are one. -/
def NoTie (entries : List (Value × Value)) : Prop :=
  ∀ a ∈ entries.filterMap eligible, ∀ b ∈ entries.filterMap eligible,
    (∀ c ∈ entries.filterMap eligible, c.2.2 ≤ a.2.2) →
      (∀ c ∈ entries.filterMap eligible, c.2.2 ≤ b.2.2) → a = b

theorem eligible_same {e e' : Value × Value} (hk : Permuted e.1 e'.1) (hv : Same e.2 e'.2) :
    Option.Rel SameEligible (eligible e) (eligible e') := by
  unfold eligible
  simp only [Option.bind_eq_bind, Option.pure_def]
  rw [hk.mapKeyStr_eq]
  have hout : (mapGet e.2 "outAmount").bind valueAsU64 =
      (mapGet e'.2 "outAmount").bind valueAsU64 :=
    hv.u64At "outAmount"
  rw [hout]
  cases mapKeyStr e'.1 with
  | none => exact .none
  | some provider =>
    cases (mapGet e'.2 "outAmount").bind valueAsU64 with
    | none => exact .none
    | some out => exact .some ⟨rfl, hv, rfl⟩

theorem expectedWinner_eq {quotesMap : Value} {entries : List (Value × Value)}
    (h : valueAsMap quotesMap = some entries) (swapQuotes : Value) :
    expectedWinner entries swapQuotes =
      (winnerName swapQuotes).bind fun name => (mapGet quotesMap name).bind fun route =>
        some (name, route) := by
  unfold expectedWinner winnerName
  simp only [Option.bind_eq_bind, Option.pure_def, Option.bind_assoc, mapGet_of_map h,
    Option.bind_map]
  rfl

theorem Same.winnerName {v v' : Value} (h : Same v v') : winnerName v = winnerName v' :=
  bind_eq_of_rel (h.lookup "metadata") fun _ _ h => h.stringAt "ExpectedWinner"

theorem scan_same {entries entries' : List (Value × Value)} (h : SameEntries entries entries')
    (ht : NoTie entries) :
    Option.Rel SameEligible (maxByKey (fun e => e.2.2) (entries.filterMap eligible))
      (maxByKey (fun e => e.2.2) (entries'.filterMap eligible)) := by
  obtain ⟨middle, hp, ha⟩ := h.aligned
  rw [maxByKey_perm (hp.filterMap eligible) ht]
  refine maxByKey_aligned (fun _ _ h => h.2.2) ?_
  exact List.rel_filterMap (fun _ _ h => eligible_same h.1 h.2) ha

/-- **Selection.** Both messages select the same route, if any. -/
theorem selectBestRoute_same {quotesMap quotesMap' swapQuotes swapQuotes' : Value}
    (hq : Same quotesMap quotesMap') (hs : Same swapQuotes swapQuotes')
    (ht : ∀ entries, valueAsMap quotesMap = some entries → NoTie entries) :
    Option.Rel SameBest (selectBestRoute quotesMap swapQuotes)
      (selectBestRoute quotesMap' swapQuotes') := by
  have hentries := hq.entries
  cases hm : valueAsMap quotesMap with
  | none =>
    rw [hm] at hentries
    cases hm' : valueAsMap quotesMap' with
    | none =>
      unfold selectBestRoute
      rw [hm, hm']
      exact .none
    | some entries' =>
      rw [hm'] at hentries
      cases hentries
  | some entries =>
    rw [hm] at hentries
    cases hm' : valueAsMap quotesMap' with
    | none =>
      rw [hm'] at hentries
      cases hentries
    | some entries' =>
      rw [hm'] at hentries
      cases hentries with
      | some hsame =>
        rw [selectBestRoute_map hm, selectBestRoute_map hm', expectedWinner_eq hm,
          expectedWinner_eq hm', hs.winnerName]
        refine rel_or ?_ ?_
        · cases Titan.winnerName swapQuotes' with
          | none => exact .none
          | some name =>
            simp only [Option.bind_some]
            exact rel_bind (S := SameBest) (hq.lookup name) fun _ _ h => .some ⟨rfl, h⟩
        · exact rel_map (scan_same hsame (ht entries hm)) fun _ _ h => ⟨h.1, h.2.1⟩

/-! ## Frames -/

/-- What both messages say before a route is selected. -/
structure SameSource (src src' : QuoteSource) : Prop where
  streamData : Same src.streamData src'.streamData
  streamId : src.streamId = src'.streamId
  swapQuotes : Same src.swapQuotes src'.swapQuotes
  inputMint : src.inputMint = src'.inputMint
  outputMint : src.outputMint = src'.outputMint
  quotesMap : Same src.quotesMap src'.quotesMap

theorem quoteSource_same {v v' : Value} (h : Same v v') (bs58 : Bs58) :
    Option.Rel SameSource (quoteSource bs58 v) (quoteSource bs58 v') := by
  unfold quoteSource
  simp only [Option.bind_eq_bind, Option.pure_def]
  rw [h.u32At "id"]
  cases (mapGet v' "id").bind valueAsU32 with
  | none => exact .none
  | some streamId =>
    simp only [Option.bind_some]
    refine rel_bind (h.lookup "payload") fun _ _ hpayload => ?_
    refine rel_bind (hpayload.lookup "SwapQuotes") fun _ swapQuotes' hswap => ?_
    rw [hswap.pubkeyAt bs58 "inputMint", hswap.pubkeyAt bs58 "outputMint"]
    cases (mapGet swapQuotes' "inputMint").bind (valueAsPubkeyBase58 bs58) with
    | none => exact .none
    | some inputMint =>
      cases (mapGet swapQuotes' "outputMint").bind (valueAsPubkeyBase58 bs58) with
      | none => exact .none
      | some outputMint =>
        simp only [Option.bind_some]
        refine rel_bind (hswap.lookup "quotes") fun _ _ hquotes => ?_
        exact .some ⟨h, rfl, hswap, rfl, rfl, hquotes⟩

/-- The quotes map of the message has no tie, if there is one. -/
def NoTieIn (bs58 : Bs58) (value : Value) : Prop :=
  ∀ src entries, (mapGet value "StreamData").bind (quoteSource bs58) = some src →
    valueAsMap src.quotesMap = some entries → NoTie entries

theorem SameSource.quote {src src' : QuoteSource} (h : SameSource src src')
    {best best' : String × Value} (hb : SameBest best best') (bs58 : Bs58)
    (reg : TitanStreamRegistry) (out : UInt64) :
    src.quote bs58 reg best out = src'.quote bs58 reg best' out := by
  unfold QuoteSource.quote QuoteSource.amount
  rw [h.inputMint, h.outputMint, h.streamId, h.swapQuotes.u64At, h.swapQuotes.stringAt,
    h.streamData.u32At, hb.1, hb.2.u64At "inAmount", hb.2.u64At "slippageBps", hb.2.leg]

theorem quoteOf_same {env : TitanEnv} {st st' : TitanState} (hreg : st.registry = st'.registry)
    {frame frame' : TitanFrame} {value value' : Value} (hv : env.decode frame.data = some value)
    (hv' : env.decode frame'.data = some value') (h : Same value value')
    (ht : NoTieIn env.bs58 value) : quoteOf env st frame = quoteOf env st' frame' := by
  rw [quoteOf_eq, quoteOf_eq, frameSource, frameSource, hv, hv', Option.bind_some,
    Option.bind_some, hreg]
  have hsource : Option.Rel SameSource ((mapGet value "StreamData").bind (quoteSource env.bs58))
      ((mapGet value' "StreamData").bind (quoteSource env.bs58)) :=
    rel_bind (h.lookup "StreamData") fun _ _ h => quoteSource_same h env.bs58
  unfold NoTieIn at ht
  generalize (mapGet value "StreamData").bind (quoteSource env.bs58) = source at hsource ht ⊢
  generalize (mapGet value' "StreamData").bind (quoteSource env.bs58) = source' at hsource ⊢
  cases hsource with
  | none => rfl
  | some hsrc =>
    rename_i src src'
    have hbest : Option.Rel SameBest src.best src'.best :=
      selectBestRoute_same hsrc.quotesMap hsrc.swapQuotes fun entries hm => ht src entries rfl hm
    simp only [Option.bind_some]
    refine bind_eq_of_rel hbest fun best best' hb => ?_
    rw [hb.2.u64At "outAmount"]
    congr 1
    funext out
    exact hsrc.quote hb env.bs58 st'.registry out

theorem responseStream_same {v v' : Value} (h : Same v v') :
    responseStream v = responseStream v' := by
  unfold responseStream
  simp only [Option.bind_eq_bind, Option.pure_def, Option.orElse_eq_orElse, Option.orElse_eq_or]
  refine bind_eq_of_rel (h.lookup "Response") fun response response' hr => ?_
  rw [show (mapGet response "requestId").bind valueAsU64 =
    (mapGet response' "requestId").bind valueAsU64 from hr.u64At "requestId"]
  congr 1
  funext requestId
  refine bind_eq_of_rel (hr.lookup "data") fun data data' hd => ?_
  refine bind_eq_of_rel (rel_or (hr.lookup "stream") (rel_or (hr.lookup "StreamStart")
    (rel_or (hd.lookup "stream") (hd.lookup "StreamStart")))) fun stream stream' hs => ?_
  rw [hs.u32At "id"]

/-- A row without its timestamp. -/
def TitanHop1Row.untimed (row : TitanHop1Row) : TitanHop1Row := { row with tsMs := 0 }

/-- Frames with the same quote write the same row. -/
theorem rows_untimed {env : TitanEnv} {st st' : TitanState} {frame frame' : TitanFrame}
    (hquote : quoteOf env st frame = quoteOf env st' frame') :
    (rowsWritten (handleTitanServerMessage env st frame).2.calls).map TitanHop1Row.untimed =
      (rowsWritten (handleTitanServerMessage env st' frame').2.calls).map
        TitanHop1Row.untimed := by
  cases hw : env.fanout.writes with
  | false => rw [frame_silent hw, frame_silent hw]
  | true =>
    rw [frame_rows hw, frame_rows hw, hquote]
    cases quoteOf env st' frame' <;> rfl

/-- **Map order.** A message and a reordering of it get the same answer, change
the registry alike and publish the same row but for its timestamp. -/
theorem map_order (env : TitanEnv) (st st' : TitanState) (hreg : st.registry = st'.registry)
    (frame frame' : TitanFrame) (value value' : Value)
    (hv : env.decode frame.data = some value) (hv' : env.decode frame'.data = some value')
    (hp : Permuted value value') (hu : UniqueKeys value) (ht : NoTieIn env.bs58 value) :
    (handleTitanServerMessage env st frame).2.kind =
        (handleTitanServerMessage env st' frame').2.kind ∧
      (handleTitanServerMessage env st frame).1.registry =
        (handleTitanServerMessage env st' frame').1.registry ∧
      (rowsWritten (handleTitanServerMessage env st frame).2.calls).map TitanHop1Row.untimed =
        (rowsWritten (handleTitanServerMessage env st' frame').2.calls).map
          TitanHop1Row.untimed := by
  have h : Same value value' := ⟨hp, hu⟩
  have hquote := quoteOf_same hreg hv hv' h ht
  refine and_assoc.mp ⟨?_, rows_untimed hquote⟩
  cases hq : quoteOf env st' frame' with
  | some quote =>
    rw [handle_quote hq, handle_quote (hquote.trans hq)]
    exact ⟨rfl, hreg⟩
  | none =>
    have hq' := hquote.trans hq
    unfold quoteOf at hq hq'
    rw [hv', Option.bind_some] at hq
    rw [hv, Option.bind_some] at hq'
    unfold handleTitanServerMessage
    rw [hv, hv']
    simp only [h.containsKey "StreamData", h.containsKey "Response", h.containsKey "Error"] at hq' ⊢
    by_cases hs : mapContainsKey value' "StreamData"
    · rw [if_pos hs] at hq hq'
      simp only [hs, ↓reduceIte, hq, hq', true_and]
      exact hreg
    · by_cases hr : mapContainsKey value' "Response"
      · simp only [hs, hr, Bool.false_eq_true, ↓reduceIte, registerStreamFromResponse,
          responseStream_same h, hreg, true_and]
      · by_cases he : mapContainsKey value' "Error"
        · simp only [hs, hr, he, Bool.false_eq_true, ↓reduceIte, hreg, and_self]
        · simp only [hs, hr, he, Bool.false_eq_true, ↓reduceIte, hreg, and_self]

/-! A message with two routes, and its routes the other way round. -/

def orderedRoutes : List (Value × Value) :=
  [(textKey "a", sampleRoute 50), (textKey "b", .map [])]

def orderedMessage (routes : List (Value × Value)) : Value :=
  .map [(textKey "StreamData", sampleStream 7 (sampleSwap "c" routes))]

def orderEnv : TitanEnv where
  bs58 := base58Codec
  decode := decodeAmong [orderedMessage orderedRoutes, orderedMessage orderedRoutes.reverse]
  fanout := ⟨"feed:350", false, true⟩
  hop1TtlSecs := 2

theorem uniqueKeys_text (text : String) : UniqueKeys (textKey text) := .leaf _ rfl rfl

theorem uniqueKeys_number (n : UInt64) : UniqueKeys (number n) := .leaf _ rfl rfl

/-- A map under distinct texts has unique keys if its values have. -/
theorem uniqueKeys_texts (fields : List (String × Value)) (hn : (fields.map Prod.fst).Nodup)
    (hv : ∀ field ∈ fields, UniqueKeys field.2) :
    UniqueKeys (.map (fields.map fun field => (textKey field.1, field.2))) := by
  refine .map _ ?_ ?_ ?_
  · have hinj : Function.Injective textKey := by
      intro a b h
      injection h with h
      injection h
    rw [List.map_map]
    simpa [Function.comp_def] using hn.map hinj
  · intro e he
    obtain ⟨field, -, rfl⟩ := List.mem_map.mp he
    exact uniqueKeys_text field.1
  · intro e he
    obtain ⟨field, hf, rfl⟩ := List.mem_map.mp he
    exact hv field hf

theorem orderedMessage_unique : UniqueKeys (orderedMessage orderedRoutes) := by
  have hbinary (bytes : Bytes) : UniqueKeys (.binary bytes) := .leaf _ rfl rfl
  have hroute : UniqueKeys (sampleRoute 50) :=
    uniqueKeys_texts [("outAmount", number 5), ("slippageBps", number 50)] (by decide)
      (by simp [uniqueKeys_number])
  have hroutes : UniqueKeys (.map orderedRoutes) :=
    uniqueKeys_texts [("a", sampleRoute 50), ("b", .map [])] (by decide)
      (by simpa using ⟨hroute, uniqueKeys_texts [] (by decide) (by simp)⟩)
  have hmetadata : UniqueKeys (.map [(textKey "ExpectedWinner", textKey "c")]) :=
    uniqueKeys_texts [("ExpectedWinner", textKey "c")] (by decide) (by simp [uniqueKeys_text])
  have hswap : UniqueKeys (sampleSwap "c" orderedRoutes) :=
    uniqueKeys_texts [("inputMint", .binary (lowKey 1).bytes),
      ("outputMint", .binary (lowKey 2).bytes),
      ("metadata", .map [(textKey "ExpectedWinner", textKey "c")]), ("amount", number 9),
      ("quotes", .map orderedRoutes)] (by decide)
      (by simp [hbinary, hmetadata, hroutes, uniqueKeys_number])
  have hpayload : UniqueKeys (.map [(textKey "SwapQuotes", sampleSwap "c" orderedRoutes)]) :=
    uniqueKeys_texts [("SwapQuotes", sampleSwap "c" orderedRoutes)] (by decide) (by simp [hswap])
  have hstream : UniqueKeys (sampleStream 7 (sampleSwap "c" orderedRoutes)) :=
    uniqueKeys_texts [("id", number 42), ("seq", number 7),
      ("payload", .map [(textKey "SwapQuotes", sampleSwap "c" orderedRoutes)])] (by decide)
      (by simp [hpayload, uniqueKeys_number])
  exact uniqueKeys_texts [("StreamData", sampleStream 7 (sampleSwap "c" orderedRoutes))]
    (by decide) (by simp [hstream])

theorem orderedMessage_permuted :
    Permuted (orderedMessage orderedRoutes) (orderedMessage orderedRoutes.reverse) := by
  have hsame (values : List Value) : List.Forall₂ Permuted values values :=
    List.forall₂_same.mpr fun v _ => .refl v
  have hroutes : Permuted (.map orderedRoutes) (.map orderedRoutes.reverse) :=
    .map (List.reverse_perm _).symm (hsame _) (hsame _)
  have hswap : Permuted (sampleSwap "c" orderedRoutes) (sampleSwap "c" orderedRoutes.reverse) :=
    .map (.refl _) (hsame _) (.cons (.refl _) (.cons (.refl _) (.cons (.refl _)
      (.cons (.refl _) (.cons hroutes .nil)))))
  have hpayload : Permuted (.map [(textKey "SwapQuotes", sampleSwap "c" orderedRoutes)])
      (.map [(textKey "SwapQuotes", sampleSwap "c" orderedRoutes.reverse)]) :=
    .map (.refl _) (hsame _) (.cons hswap .nil)
  have hstream : Permuted (sampleStream 7 (sampleSwap "c" orderedRoutes))
      (sampleStream 7 (sampleSwap "c" orderedRoutes.reverse)) :=
    .map (.refl _) (hsame _) (.cons (.refl _) (.cons (.refl _) (.cons hpayload .nil)))
  exact .map (.refl _) (hsame _) (.cons hstream .nil)

theorem orderedRoutes_noTie : NoTie orderedRoutes := by
  have hone : orderedRoutes.filterMap eligible = [("a", sampleRoute 50, 5)] := rfl
  unfold NoTie
  rw [hone]
  intro a ha b hb _ _
  rw [List.mem_singleton.mp ha, List.mem_singleton.mp hb]

theorem map_order_sample :
    let out := (handleTitanServerMessage orderEnv {} (frameOf (orderedMessage orderedRoutes))).2
    let out' :=
      (handleTitanServerMessage orderEnv {} (frameOf (orderedMessage orderedRoutes.reverse))).2
    out.kind = out'.kind ∧
      (rowsWritten out.calls).map TitanHop1Row.untimed =
        (rowsWritten out'.calls).map TitanHop1Row.untimed := by
  have htie : NoTieIn base58Codec (orderedMessage orderedRoutes) := by
    rintro _ _ ⟨⟩ ⟨⟩
    exact orderedRoutes_noTie
  have hread : orderEnv.decode (orderedMessage orderedRoutes).packed =
      some (orderedMessage orderedRoutes) := by
    simp only [orderEnv, decodeAmong_head]
  have hread' : orderEnv.decode (orderedMessage orderedRoutes.reverse).packed =
      some (orderedMessage orderedRoutes.reverse) := by
    have hne : (orderedMessage orderedRoutes).packed ≠
        (orderedMessage orderedRoutes.reverse).packed := by decide +kernel
    simp only [orderEnv, decodeAmong_tail hne, decodeAmong_head]
  have h := map_order orderEnv {} {} rfl (frameOf (orderedMessage orderedRoutes))
    (frameOf (orderedMessage orderedRoutes.reverse)) _ _ hread hread'
    orderedMessage_permuted orderedMessage_unique htie
  exact ⟨h.1, h.2.2⟩

end FeedMux.Titan
