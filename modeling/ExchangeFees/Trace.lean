import ExchangeFees.Checked

/-!
Traces of fee computations. A computation writes lines as it goes and ends in an answer or a
failure; the lines written before a failure stand. The answer does not depend on the lines. A line
is about the fees or about the filler's reward, and the lines on either are printed only where its
toggle is on.
-/
namespace ExchangeFees

inductive TraceLine where
  | filler (fee : U128) (orderTs now : I64) (size time : U128)
  | ammPostOnly (surplus : I128) (filler : U128) (toMarket : I128)
  | amm (fee userFee filler referrer : U128) (surplus toMarket forLp : I128)
  | matched (fee takerFee rebate filler referrer : U128) (toMarket : I128)
  | venue (fee userFee venueFee rebate pool filler toMarket : U128) (poolDelta : I128)
  deriving DecidableEq

def TraceLine.message : TraceLine → String
  | filler fee orderTs now size time =>
    s!"fee={fee.val} order_ts={orderTs.val} now={now.val} size={size.val} time={time.val}"
  | ammPostOnly surplus reward toMarket =>
    s!"amm post-only: surplus={surplus.val} filler={reward.val} to_market={toMarket.val}"
  | amm fee userFee reward referrer surplus toMarket forLp =>
    s!"amm: fee={fee.val} user_fee={userFee.val} filler={reward.val} referrer={referrer.val} " ++
      s!"surplus={surplus.val} to_market={toMarket.val} for_lp={forLp.val}"
  | matched fee takerFee rebate reward referrer toMarket =>
    s!"match: fee={fee.val} taker_fee={takerFee.val} rebate={rebate.val} " ++
      s!"filler={reward.val} referrer={referrer.val} to_market={toMarket.val}"
  | venue fee userFee venueFee rebate pool reward toMarket poolDelta =>
    s!"serum: fee={fee.val} user_fee={userFee.val} serum_fee={venueFee.val} " ++
      s!"rebate={rebate.val} pool={pool.val} filler={reward.val} to_market={toMarket.val} " ++
      s!"pool_delta={poolDelta.val}"

inductive Topic where
  | fees
  | filler
  deriving DecidableEq

def Topic.mark : Topic → String
  | fees => "[fees] "
  | filler => "[filler] "

def TraceLine.topic : TraceLine → Topic
  | filler .. => .filler
  | ammPostOnly .. | amm .. | matched .. | venue .. => .fees

def TraceLine.text (line : TraceLine) : String := line.topic.mark ++ line.message

/-- Whether the lines on the fees and those on the filler's reward are printed. -/
structure Toggles where
  fees : Bool
  filler : Bool

namespace Toggles

def on : Toggles := ⟨true, true⟩

def off : Toggles := ⟨false, false⟩

def prints (t : Toggles) : Topic → Bool
  | .fees => t.fees
  | .filler => t.filler

end Toggles

/-- The lines that a computation wrote, and how it ended. -/
structure Traced (α : Type) where
  lines : List TraceLine
  result : Except Error α

/-- What a computation printed, and how it ended. -/
structure Printout (α : Type) where
  lines : List String
  result : Except Error α

namespace Traced

variable {α β : Type}

def print (x : Traced α) (t : Toggles) : Printout α :=
  ⟨(x.lines.filter fun line => t.prints line.topic).map TraceLine.text, x.result⟩

def lift (r : Except Error α) : Traced α := ⟨[], r⟩

def log (line : TraceLine) : Traced Unit := ⟨[line], .ok ()⟩

/-- Goes on with an answer; a failure ends the computation. -/
def bind (x : Traced α) (f : α → Traced β) : Traced β :=
  match x.result with
  | .ok a => ⟨x.lines ++ (f a).lines, (f a).result⟩
  | .error e => ⟨x.lines, .error e⟩

instance : Monad Traced where
  pure a := ⟨[], .ok a⟩
  bind := bind

instance : MonadLift (Except Error) Traced where
  monadLift := lift

@[simp] theorem result_bind (x : Traced α) (f : α → Traced β) :
    (x >>= f).result = x.result >>= fun a => (f a).result := by
  change (Traced.bind x f).result = _
  unfold Traced.bind
  cases x.result <;> rfl

@[simp] theorem result_pure (a : α) : (pure a : Traced α).result = .ok a := rfl

@[simp] theorem result_lift (r : Except Error α) : (lift r).result = r := rfl

@[simp] theorem lines_pure (a : α) : (pure a : Traced α).lines = [] := rfl

@[simp] theorem lines_lift (r : Except Error α) : (lift r).lines = [] := rfl

end Traced
end ExchangeFees
