/-
Revenue is conserved end to end: from the transaction price, through the
allocation and the schedules, to the balances of the ledger.

The allocations are the price (`allocate_ok`), every schedule is its
allocation (`sumOf_generate`), and the recognitions of a contract are its
schedules' entries, in any order. What is left is that the ledger's
running totals stay in range (`balances_of_unsaturated`).
-/
import OpenStandards.OpRevrec.Proofs.Schedule
import OpenStandards.OpRevrec.Proofs.Ledger

namespace OpenStandards.OpRevrec

open Lib OpCore
open OpLedger (Uuid)

-- ==== the ledger

namespace InMemoryLedger

/-- No running total of the postings leaves the 64 bits. -/
def Unsaturated (ps : List Posting) : Prop :=
  ∀ done ∈ ps.inits, InI64 (volumeOf .recognize done)
    ∧ InI64 (volumeOf .deferralOpen done - volumeOf .recognize done)

instance (ps : List Posting) : Decidable (Unsaturated ps) :=
  inferInstanceAs (Decidable (∀ _ ∈ _, _))

/-- Without refunds and saturation, the recognized balance is what was
recognized and the deferred one the rest of what was opened. -/
theorem balances_of_unsaturated {ps : List Posting}
    (hkind : ∀ p ∈ ps, p.kind ≠ .refund) (h : Unsaturated ps) :
    (computeBalances ps).recognizedMinor.val = volumeOf .recognize ps
      ∧ (computeBalances ps).deferredMinor.val
        = volumeOf .deferralOpen ps - volumeOf .recognize ps := by
  induction ps using List.reverseRecOn with
  | nil => exact ⟨rfl, rfl⟩
  | append_singleton ps p ih =>
    have hbefore : Unsaturated ps := by
      intro done hdone
      rw [List.mem_inits] at hdone
      apply h done
      rw [List.mem_inits]
      exact hdone.trans (List.prefix_append ps [p])
    have hlast := h (ps ++ [p]) ((List.mem_inits _ _).2 (List.prefix_refl _))
    rcases ih (fun q hq => hkind q (List.mem_append_left _ hq)) hbefore with
      ⟨hrec, hdef⟩
    rw [volumeOf_concat, volumeOf_concat] at hlast ⊢
    rw [computeBalances_concat]
    unfold balanceStep
    cases hk : p.kind with
    | deferralOpen =>
      simp only [hk, if_true, if_false, reduceCtorEq] at hlast ⊢
      have hnew : volumeOf .deferralOpen ps + p.amountMinor.val
          - (volumeOf .recognize ps + 0)
            = (computeBalances ps).deferredMinor.val + p.amountMinor.val := by omega
      rw [hnew] at hlast ⊢
      exact ⟨by omega, I64.val_saturatingAdd hlast.2⟩
    | recognize =>
      simp only [hk, if_true, if_false, reduceCtorEq] at hlast ⊢
      have hnew : volumeOf .deferralOpen ps + 0
          - (volumeOf .recognize ps + p.amountMinor.val)
            = (computeBalances ps).deferredMinor.val - p.amountMinor.val := by omega
      rw [hnew, ← hrec] at hlast ⊢
      exact ⟨I64.val_saturatingAdd hlast.1, I64.val_saturatingSub hlast.2⟩
    | refund =>
      exact absurd hk (hkind p (List.mem_append_right _ (List.mem_singleton_self p)))

theorem postings_of_no_refund {ops : List Op} {c : ContractId}
    (h : ∀ op ∈ ops.filter (fun op => op.contractId = c), op.posting.kind ≠ .refund) :
    postings (run step new ops) c
      = (ops.filter fun op => op.contractId = c).map Op.posting := by
  have hfilter : ∀ ledger, (accepted ledger ops).filter
      (fun op => op.contractId = c) = ops.filter fun op => op.contractId = c := by
    induction ops with
    | nil => exact fun _ => rfl
    | cons op ops ih =>
      intro ledger
      have htail := ih (fun op' hop' => h op'
        (((List.sublist_cons_self op ops).filter _).mem hop'))
        (step ledger op)
      unfold accepted
      split
      case isTrue => rw [List.filter_cons, List.filter_cons, htail]
      case isFalse hrefused =>
        rw [htail, List.filter_cons]
        split
        case isFalse => rfl
        case isTrue hc =>
          have hkind := h op (List.mem_filter.2
            ⟨List.mem_cons_self, hc⟩)
          cases op with
          | openDeferral => exact absurd rfl hrefused
          | postRecognition => exact absurd rfl hrefused
          | postRefund => exact absurd rfl hkind
  rw [postings_run, hfilter]

theorem volumeOf_perm (kind : PostingKind) {ps ps' : List Posting}
    (h : ps.Perm ps') : volumeOf kind ps = volumeOf kind ps' :=
  ((h.filter _).map _).sum_eq

end InMemoryLedger

-- ==== the contract

def Posted (contractId : ContractId) (price : Money)
    (entries : List ScheduleEntry) (ops : List InMemoryLedger.Op) : Prop :=
  ∃ (stamp : Stamp) (paymentId : Option Uuid) (date : NaiveDate)
    (memo : String) (recognitions : List (Stamp × ScheduleEntry × String)),
    recognitions.map (fun r => r.2.1) = entries
      ∧ (ops.filter fun op => op.contractId = contractId).Perm
        (.openDeferral stamp contractId paymentId price date memo
          :: recognitions.map fun r =>
            .postRecognition r.1 contractId r.2.1 r.2.2)

def Scheduled (currency : Currency) (allocations : List (PerformanceObligation × I64))
    (schedules : List RecognitionSchedule) : Prop :=
  List.Forall₂
    (fun p s => ∃ fuel, generate fuel p.1 p.2 currency = some (.ok s))
    allocations schedules

theorem sumOf_scheduled {currency : Currency}
    {allocations : List (PerformanceObligation × I64)} {schedules : List RecognitionSchedule}
    (hplanned : ∀ p ∈ allocations, Planned p.1.pattern)
    (h : Scheduled currency allocations schedules) :
    sumOf (schedules.flatMap RecognitionSchedule.entries)
      = (allocations.map fun p => p.2.val).sum := by
  induction h with
  | nil => rfl
  | cons hs _ ih =>
    rcases hs with ⟨fuel, hs⟩
    rw [List.flatMap_cons, sumOf_append, List.map_cons, List.sum_cons,
      ih fun p hp => hplanned p (List.mem_cons_of_mem _ hp),
      sumOf_generate currency (hplanned _ List.mem_cons_self) hs]

open InMemoryLedger in
theorem balances_of_posted {contractId : ContractId} {price : Money}
    {entries : List ScheduleEntry} {ops : List Op} (hsum : sumOf entries = price.minorUnits.val)
    (hposted : Posted contractId price entries ops)
    (hfits : Unsaturated (postings (run step new ops) contractId)) :
    balances (run step new ops) contractId
      = { deferredMinor := 0, recognizedMinor := price.minorUnits } := by
  rcases hposted with ⟨stamp, paymentId, date, memo, recs, hrecs, hperm⟩
  have hkind : ∀ op ∈ ops.filter (fun op => op.contractId = contractId),
      op.posting.kind ≠ .refund := by
    intro op hop
    rcases List.mem_cons.1 (hperm.mem_iff.1 hop) with rfl | hrec
    · exact nofun
    · rcases List.mem_map.1 hrec with ⟨r, -, rfl⟩
      exact nofun
  have hpostings := postings_of_no_refund hkind
  rw [hpostings] at hfits
  rcases balances_of_unsaturated (by
    intro p hp
    rcases List.mem_map.1 hp with ⟨op, hop, rfl⟩
    exact hkind op hop) hfits with ⟨hrec, hdef⟩
  have hvolume := fun kind => volumeOf_perm kind (hperm.map Op.posting)
  -- the volumes of the calls, read off the list they are an order of
  have hopened : volumeOf .deferralOpen
      ((ops.filter fun op => op.contractId = contractId).map Op.posting)
        = price.minorUnits.val := by
    rw [hvolume]
    unfold volumeOf volume
    simp [Op.posting, List.filter_map, Function.comp_def]
  have hrecognized : volumeOf .recognize
      ((ops.filter fun op => op.contractId = contractId).map Op.posting)
        = price.minorUnits.val := by
    rw [hvolume, ← hsum, ← hrecs]
    unfold volumeOf volume sumOf
    simp [Op.posting, List.filter_map, Function.comp_def]
  rw [hrecognized] at hrec
  rw [hopened, hrecognized, sub_self] at hdef
  unfold balances
  rw [hpostings]
  generalize computeBalances _ = b at hrec hdef ⊢
  cases b
  rw [Balances.mk.injEq]
  exact ⟨I64.ext hdef, I64.ext hrec⟩

/-- Where the currencies agree, the prices and their sum are fit for a
split and the totals are there: the allocations sum to the transaction
price; a pattern that passes its checks has a schedule, and any schedule
returned totals its allocation; and posting the price and every entry of
the schedules, in any order, leaves nothing deferred and the price
recognized, as long as no balance saturates on the way. -/
theorem revenue_conserved (c : Contract) (totalSsp : I64) (price : Money)
    (hcurrencies : c.validateCurrencies = .ok ())
    (hssp : ∀ o ∈ c.obligations, 0 ≤ o.standaloneSellingPrice.minorUnits.val)
    (htotal : c.totalSspMinor = .ok totalSsp) (hpos : 0 < totalSsp.val)
    (hprice : c.transactionPrice.total = .ok price)
    (hplanned : ∀ o ∈ c.obligations, Planned o.pattern) :
    ∃ amounts : List I64,
      allocateTransactionPrice c
          = .ok ((c.obligations.map PerformanceObligation.id).zip amounts)
        ∧ amounts.length = c.obligations.length
        ∧ (amounts.map I64.val).sum = price.minorUnits.val
        ∧ (∀ p ∈ c.obligations.zip amounts,
            (Accepts p.2 p.1.pattern → ∃ s enough, ∀ fuel, enough ≤ fuel →
              generate fuel p.1 p.2 price.currency = some (.ok s))
            ∧ ∀ fuel s, generate fuel p.1 p.2 price.currency = some (.ok s) →
              sumOf s.entries = p.2.val ∧ s.totalMinor = p.2)
        ∧ ∀ schedules,
            Scheduled price.currency (c.obligations.zip amounts) schedules →
            ∀ ops, Posted c.id price (schedules.flatMap RecognitionSchedule.entries) ops →
              InMemoryLedger.Unsaturated
                (InMemoryLedger.postings
                  (run InMemoryLedger.step InMemoryLedger.new ops) c.id) →
              InMemoryLedger.balances (run InMemoryLedger.step InMemoryLedger.new ops) c.id
                = { deferredMinor := 0
                    recognizedMinor := price.minorUnits } := by
  rcases allocate_ok hcurrencies hssp htotal hpos hprice with
    ⟨amounts, hallocate, hlen, hsum⟩
  have hplannedZip : ∀ p ∈ c.obligations.zip amounts, Planned p.1.pattern :=
    fun p hp => hplanned p.1 (List.of_mem_zip hp).1
  refine ⟨amounts, hallocate, hlen, hsum, ?_, ?_⟩
  · intro p hp
    refine ⟨generate_ok price.currency, fun fuel s hs => ?_⟩
    have hexact := sumOf_generate price.currency (hplannedZip p hp) hs
    refine ⟨hexact, ?_⟩
    rw [totalMinor_eq, hexact, I64.wrap_val]
  · intro schedules hschedules ops hposted hfits
    apply balances_of_posted _ hposted hfits
    rw [sumOf_scheduled hplannedZip hschedules, ← hsum]
    have hsnd : (c.obligations.zip amounts).map Prod.snd = amounts :=
      List.map_snd_zip (le_of_eq hlen)
    calc ((c.obligations.zip amounts).map fun p => p.2.val).sum
        = (((c.obligations.zip amounts).map Prod.snd).map I64.val).sum := by
          rw [List.map_map]
          rfl
      _ = (amounts.map I64.val).sum := by rw [hsnd]

-- ==== examples

def day2026 (m d : Nat) (h : 1 ≤ m ∧ m ≤ 12 ∧ 1 ≤ d ∧ d ≤ daysInMonth 2026 m) : NaiveDate :=
  have hmin : (-262143 : Int) ≤ 2026 := by decide
  have hmax : (2026 : Int) ≤ 262142 := by decide
  ⟨⟨2026, m, d, h.1, h.2.1, h.2.2.1, h.2.2.2⟩, hmin, hmax⟩

def tenDollars (patterns : List RecognitionPattern) : Contract :=
  let usd (n : I64) : Money := .fromMinor n .USD
  { id := ⟨⟨1⟩⟩
    obligations := patterns.map fun pattern =>
      { id := ⟨"part"⟩, standaloneSellingPrice := usd 400
        pattern }
    transactionPrice := .fixed (usd 1000) }

def fourPatterns : List RecognitionPattern :=
  [.pointInTime (day2026 1 31 (by decide)),
    .straightLine (day2026 1 15 (by decide)) (day2026 3 10 (by decide)),
    .outputMilestones [⟨day2026 2 1 (by decide), 1 / 3⟩,
      ⟨day2026 4 1 (by decide), 2 / 3⟩],
    .inputPercentComplete [⟨day2026 2 1 (by decide), 1 / 4⟩,
      ⟨day2026 5 1 (by decide), 1⟩]]

/-- Their schedules, each for a quarter of the price. -/
def fourSchedules : List RecognitionSchedule :=
  (tenDollars fourPatterns).obligations.filterMap fun o =>
    match generate 60 o ⟨250, by decide⟩ .USD with
    | some (.ok s) => some s
    | _ => none

def recognizeAll (contractId : ContractId) (price : Money)
    (entries : List ScheduleEntry) : List InMemoryLedger.Op :=
  .openDeferral ⟨⟨7⟩, 0⟩ contractId none price (day2026 1 1 (by decide)) "open"
    :: entries.map fun e => .postRecognition ⟨⟨8⟩, 0⟩ contractId e "recognize"

theorem posted_recognizeAll (contractId : ContractId) (price : Money)
    (entries : List ScheduleEntry) :
    Posted contractId price entries (recognizeAll contractId price entries) := by
  refine ⟨⟨⟨7⟩, 0⟩, none, day2026 1 1 (by decide), "open",
    entries.map fun e => (⟨⟨8⟩, 0⟩, e, "recognize"), ?_, ?_⟩
  · rw [List.map_map]
    exact List.map_id _
  · rw [List.map_map, List.filter_eq_self.2]
    · exact .refl _
    · intro op hop
      rcases List.mem_cons.1 hop with rfl | hrec
      · exact decide_eq_true rfl
      · rcases List.mem_map.1 hrec with ⟨e, -, rfl⟩
        exact decide_eq_true rfl

theorem fourPatterns_recognized :
    allocateTransactionPrice (tenDollars fourPatterns)
        = .ok (List.replicate 4 (⟨"part"⟩, ⟨250, by decide⟩))
      ∧ InMemoryLedger.balances
          (run InMemoryLedger.step InMemoryLedger.new
            (recognizeAll ⟨⟨1⟩⟩ (.fromMinor ⟨1000, by decide⟩ .USD)
              (fourSchedules.flatMap RecognitionSchedule.entries))) ⟨⟨1⟩⟩
        = { deferredMinor := 0, recognizedMinor := ⟨1000, by decide⟩ } := by
  have hallocate : allocateTransactionPrice (tenDollars fourPatterns)
      = .ok (List.replicate 4 (⟨"part"⟩, ⟨250, by decide⟩)) := by
    decide +kernel
  refine ⟨hallocate, ?_⟩
  rcases revenue_conserved (tenDollars fourPatterns) ⟨1600, by decide⟩
    (.fromMinor ⟨1000, by decide⟩ .USD) (by decide) (by decide) (by decide)
    (by decide) (by decide) (by decide) with
    ⟨amounts, heq, hlen, -, -, hposted⟩
  have hamounts : amounts = List.replicate 4 ⟨250, by decide⟩ := by
    rw [hallocate] at heq
    have hzip := congrArg (List.map Prod.snd) (Except.ok.inj heq)
    rw [List.map_snd_zip (by rw [List.length_map, hlen])] at hzip
    exact hzip.symm
  subst hamounts
  apply hposted fourSchedules
  · have hgenerate : ∀ p ∈ ((tenDollars fourPatterns).obligations.zip
        (List.replicate 4 ⟨250, by decide⟩)).zip fourSchedules,
        generate 60 p.1.1 p.1.2 .USD = some (.ok p.2) := by decide +kernel
    apply List.forall₂_iff_zip.2
    refine ⟨by decide +kernel, fun {p s} hp => ⟨60, ?_⟩⟩
    exact hgenerate (p, s) hp
  · exact posted_recognizeAll _ _ _
  · decide +kernel

/-- A period that ends before it starts: the price is allocated, and the
schedule is refused. -/
theorem backwards_refused :
    let backwards : RecognitionPattern :=
      .straightLine (day2026 3 10 (by decide)) (day2026 1 15 (by decide))
    let c := tenDollars [backwards]
    (∀ o ∈ c.obligations, 0 ≤ o.standaloneSellingPrice.minorUnits.val ∧ Planned o.pattern)
      ∧ c.totalSspMinor = .ok ⟨400, by decide⟩
      ∧ c.transactionPrice.total = .ok (.fromMinor ⟨1000, by decide⟩ .USD)
      ∧ allocateTransactionPrice c = .ok [(⟨"part"⟩, ⟨1000, by decide⟩)]
      ∧ ∀ o ∈ c.obligations, ∀ fuel s,
          generate fuel o ⟨1000, by decide⟩ .USD ≠ some (.ok s) := by
  refine ⟨by decide, by decide, by decide, by decide +kernel, ?_⟩
  intro o ho fuel s hs
  rcases List.mem_singleton.1 ho with rfl
  have hrefused : ∀ allocated, straightLine fuel ⟨"part"⟩
      (day2026 3 10 (by decide)) (day2026 1 15 (by decide)) allocated .USD
        = some (.error (.invalidPeriod (day2026 3 10 (by decide))
          (day2026 1 15 (by decide)))) := by
    intro allocated
    unfold straightLine
    exact if_pos (by decide +kernel)
  unfold generate at hs
  simp only [hrefused] at hs
  cases hs

end OpenStandards.OpRevrec
