import Turnstile.Holding
import Turnstile.Settings.Source
import Turnstile.Proofs.Driving
import Turnstile.Proofs.Exactness
import Turnstile.Proofs.Exits
import Turnstile.Proofs.Fairness
import Turnstile.Proofs.Guards
import Turnstile.Proofs.HandingBack
import Turnstile.Proofs.Outstanding
import Turnstile.Proofs.Precedence
import Turnstile.Proofs.Refusing
import Turnstile.Proofs.Scripts
import Turnstile.Proofs.Sharers
import Turnstile.Proofs.Stealing
import Turnstile.Proofs.Teardown
import Turnstile.Proofs.Tenancies
import Turnstile.Proofs.Unseen
