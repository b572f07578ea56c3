import DostReview.Library.Runs
import DostReview.Library.Transactions
import DostReview.Library.Dict
import DostReview.Library.Fading
import DostReview.Engine.Vendored
import DostReview.Engine.Ledger
import DostReview.Risk.Serializable
import DostReview.Risk.Routes
import DostReview.Risk.Agreement
import DostReview.Risk.Rebuilt
import DostReview.Risk.Refined
import DostReview.Risk.Declared
import DostReview.Risk.Sender
import DostReview.Risk.Shown
import DostReview.Risk.Alarm
import DostReview.Risk.SingleOpen
import DostReview.Risk.Reporters
import DostReview.Review.RateLimit
import DostReview.Review.Conservation
import DostReview.Review.Stranded
import DostReview.Review.Undisturbed
import DostReview.Review.Starting
import DostReview.Review.Rejections
import DostReview.Review.Poison
import DostReview.Review.Settled
import DostReview.Review.Isolation
import DostReview.Review.Published
import DostReview.Review.Audit
import DostReview.Review.Answers
import DostReview.Risk.Waiting
import DostReview.Risk.Raising
import DostReview.Review.History
import DostReview.Review.Presented
import DostReview.Review.Turns
import DostReview.Review.Linearized
