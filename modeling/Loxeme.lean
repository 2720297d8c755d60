import Loxeme.Main
import Loxeme.Session
import Loxeme.Proofs.LongestMatch
import Loxeme.Proofs.Adjacency
import Loxeme.Proofs.Parts
import Loxeme.Proofs.Lookahead
import Loxeme.Proofs.SharedCollectors
import Loxeme.Proofs.Files
import Loxeme.Proofs.Listings
import Loxeme.Proofs.Modes
import Loxeme.Proofs.Arguments
import Loxeme.Proofs.Malformed
import Loxeme.Proofs.Skipped
import Loxeme.Proofs.Bodies
import Loxeme.Proofs.LineEnds
import Loxeme.Proofs.Conversation
import Loxeme.Proofs.Printed
import Loxeme.Proofs.Log
import Loxeme.Proofs.Damage
